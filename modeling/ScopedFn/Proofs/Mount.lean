import ScopedFn.Mount
import ScopedFn.Proofs.Environment
import ScopedFn.Proofs.Path.Segments
import ScopedFn.Proofs.Result

/-!
# Rendered mounts

The text of a mount is read again option by option. Nothing is escaped, so a separator in a field
begins an option of its own, which may be the one that the text ends with, mark and all. Without a
separator the text says what the mount is, and that it is read-only.

* `Mount.options` : the options of a text;
* `Mount.isPlain_of_parse` : what is read from a text holds no separator;
* `Mount.options_render` : the options of a rendered mount whose fields hold no separator;
* `Mount.isFaithful_iff` : which mounts are rendered as they were declared.
-/

set_option autoImplicit false

namespace ScopedFn

/-- The text that counts of a name is one of those that were given. -/
theorem TextMap.mem_of_last? {m : TextMap} {name value : String} (h : m.last? name = some value) :
    (name, value) ∈ m := by
  induction m with
  | nil => cases h
  | cons p m ih =>
    obtain ⟨key, text⟩ := p
    rw [last?] at h
    cases hrest : last? m name with
    | some text' =>
      rw [hrest] at h
      exact List.mem_cons_of_mem _ (ih (hrest.trans h))
    | none =>
      rw [hrest, Option.none_or] at h
      split_ifs at h with hkey
      obtain rfl := Option.some.inj h
      exact hkey ▸ List.mem_cons_self

namespace Mount

variable {text : String} {part name value : List Char} {m : Mount} {opts : TextMap}

/-! ### Options -/

/-- The options of a text, first to last. -/
def options (text : String) : Except SpecFault TextMap :=
  ((Text.splitOn ',' text.toList).mapM (option? text)).map (·.filterMap id)

/-- The mount that some options describe. -/
def ofOptions (opts : TextMap) : Mount :=
  ⟨(opts.last? "type").getD "", (opts.last? "src").getD "", (opts.last? "dst").getD ""⟩

/-- A mount is read from the last options of its names. -/
theorem parse_eq (text : String) : parse text = (options text).map ofOptions := by
  have hget : ∀ (opts : TextMap) (name : String),
      TextMap.get? (Entries.ofPairs (· == ·) opts) name = opts.last? name := fun opts name => by
    rw [Entries.ofPairs, TextMap.get?_putAll]
    exact Option.or_none
  unfold parse options
  cases (Text.splitOn ',' text.toList).mapM (option? text) with
  | error fault => rfl
  | ok found => simp only [Except.map, ofOptions, ← hget]; rfl

/-- An option is its name up to the first equals sign, and the rest. -/
theorem option?_append (hname : '=' ∉ name) (htrim : Text.trimBlanks name = name)
    (hblank : name.all Text.isBlank = false) :
    option? text (name ++ '=' :: value) = .ok (some (String.ofList name, String.ofList value)) := by
  have hchars : ∀ c ∈ name, (c != '=') = true := fun c hc => by
    rw [bne_iff_ne]
    rintro rfl
    exact hname hc
  rw [option?, List.all_append, hblank, Bool.false_and, if_neg Bool.false_ne_true,
    List.dropWhile_append_of_pos hchars, List.takeWhile_append_of_pos hchars]
  simp [htrim]

/-- The value of an option stands in it as it is. -/
theorem subset_of_option? {key value : String} (h : option? text part = .ok (some (key, value))) :
    value.toList ⊆ part := by
  unfold option? at h
  split_ifs at h
  · cases h
  · split at h
    · cases h
    · next c rest hdrop =>
      obtain ⟨-, rfl⟩ := Prod.mk.inj (Option.some.inj (Except.ok.inj h))
      intro d hd
      rw [String.toList_ofList] at hd
      exact (List.dropWhile_sublist _).subset (hdrop ▸ List.mem_cons_of_mem c hd)

/-- No value of an option holds the separator. -/
theorem comma_notMem_of_options {key value : String} (h : options text = .ok opts)
    (hmem : (key, value) ∈ opts) : ',' ∉ value.toList := by
  obtain ⟨found, hfound, rfl⟩ := Result.ok_of_map h
  obtain ⟨option, hoption, rfl⟩ := List.mem_filterMap.1 hmem
  obtain ⟨part, hpart, hread⟩ := Result.exists_of_mem_left (Result.forall₂_of_mapM hfound).flip hoption
  exact fun hcomma => Text.not_mem_of_mem_splitOn hpart (subset_of_option? hread hcomma)

/-! ### Plain mounts -/

/-- No field of the mount holds the separator of options. -/
structure IsPlain (m : Mount) : Prop where
  /-- The type holds none. -/
  type : ',' ∉ m.type.toList
  /-- The source holds none. -/
  source : ',' ∉ m.source.toList
  /-- The target holds none. -/
  target : ',' ∉ m.target.toList

theorem isPlain_of_parse (h : parse text = .ok m) : m.IsPlain := by
  rw [parse_eq] at h
  obtain ⟨opts, hopts, rfl⟩ := Result.ok_of_map h
  have hfield : ∀ name, ',' ∉ ((opts.last? name).getD "").toList := by
    intro name
    cases hlast : opts.last? name with
    | none => exact List.not_mem_nil
    | some value => exact comma_notMem_of_options hopts (TextMap.mem_of_last? hlast)
  exact ⟨hfield "type", hfield "src", hfield "dst"⟩

/-- The mount as the container is to see it, the target with the read-only mark. -/
def readOnly (m : Mount) : Mount := { m with target := m.target ++ ":ro" }

/-- What the text of a plain mount says: its fields and the mark, and nothing else. -/
theorem options_render (h : m.IsPlain) : options m.render =
    .ok [("type", m.type), ("src", m.source), ("dst", m.target ++ ":ro")] := by
  have htype : ',' ∉ "type".toList ++ '=' :: m.type.toList := by simp [h.type]
  have hsource : ',' ∉ "src".toList ++ '=' :: m.source.toList := by simp [h.source]
  have htarget : ',' ∉ "dst".toList ++ '=' :: (m.target ++ ":ro").toList := by simp [h.target]
  have hrender : m.render.toList = ("type".toList ++ '=' :: m.type.toList) ++ ',' ::
      (("src".toList ++ '=' :: m.source.toList) ++ ',' ::
        ("dst".toList ++ '=' :: (m.target ++ ":ro").toList)) := by
    simp [render]
  rw [options, hrender, Text.splitOn_append, Text.splitOn_append, Text.splitOn_eq_singleton htype,
    Text.splitOn_eq_singleton hsource, Text.splitOn_eq_singleton htarget, List.singleton_append,
    List.singleton_append, List.mapM_cons, List.mapM_cons, List.mapM_cons,
    option?_append (by decide) (by decide) (by decide),
    option?_append (by decide) (by decide) (by decide),
    option?_append (by decide) (by decide) (by decide)]
  simp only [String.ofList_toList]
  rfl

/-! ### Faithful renderings -/

/-- The text of the mount says what was declared: read again, it is the mount with the mark. -/
structure IsFaithful (m : Mount) : Prop where
  /-- The text is read as the mount with the mark. -/
  parse : parse m.render = .ok m.readOnly
  /-- Its options are the fields, each one once, and no others. -/
  options : options m.render =
    .ok [("type", m.type), ("src", m.source), ("dst", m.readOnly.target)]
  /-- Each target that it names carries the mark. -/
  marked : ∀ opts target, Mount.options m.render = .ok opts → ("dst", target) ∈ opts →
    ":ro".toList <:+ target.toList

/-- A mount that is read again from its text is one that a text can say. -/
theorem IsFaithful.isPlain (h : m.IsFaithful) : m.IsPlain := by
  obtain ⟨htype, hsource, htarget⟩ := isPlain_of_parse h.parse
  exact ⟨htype, hsource, fun hmem => htarget (by simp [readOnly, hmem])⟩

theorem IsPlain.isFaithful (h : m.IsPlain) : m.IsFaithful := by
  have hoptions := options_render h
  refine ⟨?_, hoptions, fun opts target hopts hmem => ?_⟩
  · rw [parse_eq, hoptions]
    rfl
  · obtain rfl := Except.ok.inj (hoptions.symm.trans hopts)
    have htarget : target = m.target ++ ":ro" := by simpa using hmem
    rw [htarget, String.toList_append]
    exact List.suffix_append _ _

/-- **The mounts that are rendered as they were declared** are those whose fields hold no separator of
options. -/
theorem isFaithful_iff (m : Mount) : m.IsFaithful ↔ m.IsPlain :=
  ⟨IsFaithful.isPlain, IsPlain.isFaithful⟩

end Mount

end ScopedFn
