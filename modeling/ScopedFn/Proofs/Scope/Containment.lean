import ScopedFn.Proofs.Scope.Directory
import ScopedFn.Proofs.Scope.Partition

/-!
# Scopes and the directory tree

A scope is compared with directories by their segments. Seen from a place in a tree of
directories this is containment, with one exception: a scope that is made of parent segments only
begins the segments of directories that lie above it.

* `Path.LiesIn` : containment of places, for normal paths;
* `Path.prefix_normal` : how normal segments can begin other normal segments;
* `Scope.liesIn_iff_not_climbs` : a resource in scope lies in the scope's directory, seen from
  every absolute directory, iff its own directory does not climb above it;
* `Scope.climbing_resource_in_scope` : a resource that is handed to a function although it lies in
  the parent of the function's scope.
-/

set_option autoImplicit false

namespace ScopedFn

namespace Path

/-- The first of two normal paths leads to the place of the second or below it, in a tree without
links. -/
def LiesIn (p top : Path) : Prop :=
  (Lexical.ofPath p).root = (Lexical.ofPath top).root ∧
    (Lexical.ofPath top).parts <+: (Lexical.ofPath p).parts

instance (p top : Path) : Decidable (LiesIn p top) := inferInstanceAs (Decidable (_ ∧ _))

/-- Normal segments begin others with as many parent segments, or they have no names and the
others more parent segments. -/
theorem prefix_normal {ups ups' : ℕ} {ns ms : List (List Char)} (hn : ∀ s ∈ ns, IsName s)
    (hm : ∀ s ∈ ms, IsName s)
    (h : List.replicate ups parentSegment ++ ns <+: List.replicate ups' parentSegment ++ ms) :
    ups = ups' ∧ ns <+: ms ∨ ns = [] ∧ ups < ups' := by
  induction ups generalizing ups' with
  | zero =>
    cases ups' with
    | zero => exact .inl ⟨rfl, by simpa using h⟩
    | succ n =>
      cases ns with
      | nil => exact .inr ⟨rfl, Nat.succ_pos n⟩
      | cons s ns =>
        have hs : s = parentSegment := by
          simpa [List.replicate_succ] using (List.cons_prefix_cons.1 h).1
        exact absurd hs (hn s List.mem_cons_self).ne_parent
  | succ k ih =>
    cases ups' with
    | zero =>
      -- a parent segment would have to be a name
      have hmem : parentSegment ∈ ms := by
        refine List.IsPrefix.subset (by simpa using h) ?_
        simp [List.replicate_succ]
      exact absurd rfl (hm _ hmem).ne_parent
    | succ n =>
      rw [List.replicate_succ, List.replicate_succ] at h
      rcases ih (List.cons_prefix_cons.1 h).2 with ⟨rfl, h'⟩ | ⟨h', hlt⟩
      · exact .inl ⟨rfl, h'⟩
      · exact .inr ⟨h', by omega⟩

/-- Directories with as many parent segments, one named below the other, keep their places. -/
theorem resolve_isPrefix {base ns ms : List (List Char)} (hb : ∀ s ∈ base, IsName s)
    (hn : ∀ s ∈ ns, IsName s) (hm : ∀ s ∈ ms, IsName s) (h : ns <+: ms) (ups : ℕ) :
    resolve base (List.replicate ups parentSegment ++ ns) <+:
      resolve base (List.replicate ups parentSegment ++ ms) := by
  rw [resolve_parents_append hb hn, resolve_parents_append hb hm]
  exact (List.prefix_append_right_inj _).2 h

/-- Where parent segments outnumber those of a nameless directory, some place tells them apart. -/
theorem exists_not_resolve_isPrefix {ms : List (List Char)} (hm : ∀ s ∈ ms, IsName s) {ups ups' : ℕ}
    (h : ups < ups') :
    ∃ base : List (List Char), base ≠ [] ∧ (∀ s ∈ base, IsName s) ∧
      ¬ resolve base (List.replicate ups parentSegment) <+:
        resolve base (List.replicate ups' parentSegment ++ ms) := by
  -- directories of one name, which the names of the other directory do not begin with
  obtain ⟨c, hc, hms⟩ : ∃ c, IsName [c] ∧ ms.head? ≠ some [c] := by
    by_cases ha : ms.head? = some ['a']
    · exact ⟨'b', ⟨by decide, by decide, by decide, by decide⟩, by simp [ha]⟩
    · exact ⟨'a', ⟨by decide, by decide, by decide, by decide⟩, ha⟩
  have hb : ∀ s ∈ List.replicate (ups + 1) [c], IsName s :=
    fun s hs => List.eq_of_mem_replicate hs ▸ hc
  refine ⟨List.replicate (ups + 1) [c], by simp, hb, fun hpre => hms ?_⟩
  have hup := resolve_parents_append hb (fun s hs => absurd hs List.not_mem_nil) ups
  rw [List.append_nil] at hup
  rw [hup, resolve_parents_append hb hm, List.length_replicate,
    Nat.sub_eq_zero_of_le (by omega : ups + 1 ≤ ups'), Nat.add_sub_cancel_left] at hpre
  cases ms with
  | nil => simp [List.take_replicate] at hpre
  | cons s ms => simpa [List.take_replicate, eq_comm] using hpre

end Path

namespace Scope

open ScopedFn.Path

/-- Seen from every absolute directory, the first directory leads to the place of the second or
below it. -/
def AlwaysLiesIn (dir scope : Path) : Prop :=
  ∀ base : Path, IsAbsolute base → (base.join dir).normalize.LiesIn (base.join scope).normalize

/-- The scope is made of parent segments only, and the directory begins with one more of them. -/
def Climbs (dir scope : Path) : Prop :=
  (∀ s ∈ segments scope, s = parentSegment) ∧ segments scope ++ [parentSegment] <+: segments dir

instance (dir scope : Path) : Decidable (Climbs dir scope) := inferInstanceAs (Decidable (_ ∧ _))

variable {ss ds : List (List Char)}

/-- Containment of relative directories, by their segments. -/
theorem alwaysLiesIn_iff {dir scope : Path} (hd : ¬ IsAbsolute dir) (hs : ¬ IsAbsolute scope) :
    AlwaysLiesIn dir scope ↔ ∀ base : Path, IsAbsolute base →
      resolve (normalSegments base) (segments scope) <+:
        resolve (normalSegments base) (segments dir) := by
  refine forall₂_congr fun base hbase => ?_
  rw [LiesIn, ofPath_normalize, ofPath_normalize, rootSlashes_join hbase hd,
    rootSlashes_join hbase hs, normalSegments_join hbase hd, normalSegments_join hbase hs]
  simp

theorem isName_of_isAbsolute {base : Path} (hbase : IsAbsolute base) :
    ∀ s ∈ normalSegments base, IsName s := by
  obtain ⟨ups, names, heq, hn, hr⟩ := isNormal_normalSegments base
  obtain rfl := hr (by simpa using rootSlashes_ne_zero hbase)
  rw [heq]
  simpa using hn

theorem exists_base {names : List (List Char)} (hne : names ≠ []) (h : ∀ s ∈ names, IsName s) :
    ∃ base : Path, IsAbsolute base ∧ normalSegments base = names := by
  refine ⟨ofSegments 1 names, rfl, ?_⟩
  rw [normalSegments, segments_ofSegments fun s hs => (h s hs).slash_notMem, if_neg hne,
    List.foldl_append, foldl_pushSegment_names h]
  simp [pushSegment_skip]

/-- For normal segments that begin others, containment fails exactly above a nameless scope. -/
theorem alwaysLiesIn_ofSegments (hs : IsNormal false ss) (hd : IsNormal false ds) (hss : ss ≠ [])
    (h : ss <+: ds) :
    AlwaysLiesIn (ofSegments 0 ds) (ofSegments 0 ss) ↔
      ¬ Climbs (ofSegments 0 ds) (ofSegments 0 ss) := by
  have hds : ds ≠ [] := fun hds => hss (List.prefix_nil.1 (hds ▸ h))
  have hsegs : segments (ofSegments 0 ss) = ss :=
    segments_joinSegments hss fun s h => (hs.of_mem h).2
  have hsegd : segments (ofSegments 0 ds) = ds :=
    segments_joinSegments hds fun s h => (hd.of_mem h).2
  have hrs : ¬ IsAbsolute (ofSegments 0 ss) := head?_joinSegments fun s h => hs.of_mem h
  have hrd : ¬ IsAbsolute (ofSegments 0 ds) := head?_joinSegments fun s h => hd.of_mem h
  rw [alwaysLiesIn_iff hrd hrs, Climbs, hsegs, hsegd]
  obtain ⟨ups, ns, rfl, hn, -⟩ := hs
  obtain ⟨ups', ms, rfl, hm, -⟩ := hd
  rcases prefix_normal hn hm h with ⟨rfl, hpre⟩ | ⟨rfl, hlt⟩
  · refine iff_of_true (fun base hbase => resolve_isPrefix (isName_of_isAbsolute hbase) hn hm hpre _) ?_
    -- one more parent segment would begin the names
    rintro ⟨hall, hup⟩
    obtain rfl : ns = [] := List.eq_nil_iff_forall_not_mem.2 fun s hs =>
      (hn s hs).ne_parent (hall s (List.mem_append_right _ hs))
    rw [List.append_nil, List.prefix_append_right_inj] at hup
    exact (hm _ (hup.subset (List.mem_singleton_self _))).ne_parent rfl
  · refine iff_of_false (fun hall => ?_) (not_not.2 ⟨fun s hs => ?_, ?_⟩)
    · obtain ⟨names, hne, hb, hnot⟩ := exists_not_resolve_isPrefix hm hlt
      obtain ⟨base, hbase, rfl⟩ := exists_base hne hb
      exact hnot (by simpa using hall base hbase)
    · exact List.eq_of_mem_replicate (by simpa using hs)
    · -- of the parent segments that are left over, the first one comes next
      obtain ⟨k, rfl⟩ := Nat.exists_eq_add_of_lt hlt
      refine ⟨List.replicate k parentSegment ++ ms, ?_⟩
      rw [List.append_nil, ← List.replicate_succ', ← List.append_assoc, ← List.replicate_add]
      congr 2
      omega

theorem rootSlashes_dirname {path : Path} (h : ¬ IsAbsolute path ∨ ¬ IsAbsolute (resourceDir path)) :
    rootSlashes path.dirname = 0 := by
  by_contra hroot
  rcases h with h | h
  · exact hroot (rootSlashes_eq_zero fun hdir => h (hdir.of_isPrefix (dirname_isPrefix path)))
  · obtain ⟨n, hn⟩ := Nat.exists_eq_succ_of_ne_zero hroot
    refine h ?_
    rw [resourceDir_eq, hn]
    rfl

theorem resourceDir_of_relative {path : Path}
    (h : ¬ IsAbsolute path ∨ ¬ IsAbsolute (resourceDir path)) :
    resourceDir path = ofSegments 0 (dirSegments path) ∧ IsNormal false (dirSegments path) := by
  have hn := isNormal_dirSegments path
  rw [rootSlashes_dirname h] at hn
  exact ⟨by rw [resourceDir_eq, rootSlashes_dirname h], hn⟩

theorem functionScope_eq {config : Resource} {scope : Path}
    (h : functionScope (some config) = .ok scope) (hne : scope ≠ global) :
    ∃ path : String, scope = resourceDir path.toList := by
  unfold functionScope at h
  cases hm : config.getMeta with
  | error fault => simp [hm, bind, Except.bind] at h
  | ok m =>
    simp only [hm, bind, Except.bind] at h
    cases hp : m.path? with
    | none =>
      simp only [hp, Except.ok.injEq] at h
      exact absurd h.symm hne
    | some path =>
      simp only [hp, Except.ok.injEq] at h
      exact ⟨path, h.symm⟩

/-- **Containment of what is in scope.** For a function of relative scope, a resource with a
relative path that the partition puts in scope lies in the directory of the scope, seen from every
absolute directory, iff the directory of the resource does not climb above the scope. -/
theorem liesIn_iff_not_climbs {config r : Resource} {rs : List Resource} {scope : Path} {s : Split}
    {m : Meta} {path : String} (hscope : functionScope (some config) = .ok scope)
    (hne : scope ≠ global) (hrel : ¬ IsAbsolute scope) (hs : split scope rs false = .ok s)
    (hr : r ∈ s.inside) (hm : r.getMeta = .ok m) (hpath : m.path? = some path)
    (hprel : ¬ IsAbsolute path.toList) :
    AlwaysLiesIn (resourceDir path.toList) scope ↔ ¬ Climbs (resourceDir path.toList) scope := by
  obtain ⟨file, rfl⟩ := functionScope_eq hscope hne
  obtain ⟨hseq, hsn⟩ := resourceDir_of_relative (.inr hrel)
  obtain ⟨hdeq, hdn⟩ := resourceDir_of_relative (.inl hprel)
  have hss : dirSegments file.toList ≠ [] := by
    intro hss
    rw [hseq, hss] at hne
    exact hne rfl
  -- a relative scope that is not the global one does not hold everything
  have hwithin : isWithin (resourceDir path.toList) (resourceDir file.toList) = true := by
    obtain ⟨hall, -⟩ | ⟨-, hin, -⟩ := split_ok hs
    · have hcur : resourceDir file.toList ≠ ['.'] := hseq ▸ ofSegments_ne_current hsn
      have hroot : resourceDir file.toList ≠ ['/'] := fun hroot => hrel (hroot ▸ rfl)
      simp [holdsAll, hne, hcur, hroot] at hall
    · rw [hin, List.mem_filter, lies_eq hm] at hr
      simpa [holds, hpath] using hr.2
  rw [hseq, hdeq] at hwithin ⊢
  exact alwaysLiesIn_ofSegments hsn hdn hss ((isWithin_ofSegments hsn hss hdn).1 hwithin).2

/-- A resource that says nothing but its path, in objects from an identity on. -/
def located (first : ObjectId) (path : String) : Resource :=
  ⟨first, [(.text "metadata", .map (first + 1)
    [(.text "annotations", .map (first + 2) [(.text pathKey, .text path)])])]⟩

/-- The partition of a single resource that lies in the scope. -/
theorem split_singleton {scope : Path} {r : Resource} {m : Meta} (hall : holdsAll scope = false)
    (hm : r.getMeta = .ok m) (hh : holds scope m = true) : split scope [r] false = .ok ⟨[r], []⟩ := by
  simp [split, splitFrom, hall, hm, hh, bind, Except.bind, pure, Except.pure]

/-- A function that is kept in a directory of functions, and a resource in a directory beside it
whose path takes a detour. -/
theorem liesIn_parent_of_functions :
    functionScope (some (located 1 "apps/functions/fn.yaml")) = .ok "apps".toList ∧
      split "apps".toList [located 4 "apps/x/..//web/./a.yaml"] false =
        .ok ⟨[located 4 "apps/x/..//web/./a.yaml"], []⟩ ∧
      AlwaysLiesIn (resourceDir "apps/x/..//web/./a.yaml".toList) "apps".toList := by
  have hscope : functionScope (some (located 1 "apps/functions/fn.yaml")) = .ok "apps".toList := by
    decide
  have hm : (located 4 "apps/x/..//web/./a.yaml").getMeta =
      .ok ⟨"", "", "", "", [(pathKey, "apps/x/..//web/./a.yaml")], []⟩ := by
    decide
  have hs := split_singleton (by decide : holdsAll "apps".toList = false) hm (by decide)
  exact ⟨hscope, hs, (liesIn_iff_not_climbs hscope (by decide) (by decide) hs
    List.mem_cons_self hm (by decide) (by decide)).2 (by decide)⟩

/-- **A resource in the parent of the scope is handed to the function**: to a function whose file
lies one directory up, where two directories up begins with the same text. -/
theorem climbing_resource_in_scope :
    functionScope (some (located 1 "../fn.yaml")) = .ok "..".toList ∧
      split "..".toList [located 4 "../../x.yaml"] false = .ok ⟨[located 4 "../../x.yaml"], []⟩ ∧
      ¬ LiesIn (join "/a/b".toList (resourceDir "../../x.yaml".toList)).normalize
        (join "/a/b".toList "..".toList).normalize := by
  have hm : (located 4 "../../x.yaml").getMeta =
      .ok ⟨"", "", "", "", [(pathKey, "../../x.yaml")], []⟩ := by
    decide
  exact ⟨by decide, split_singleton (by decide) hm (by decide), by decide⟩

end Scope

end ScopedFn
