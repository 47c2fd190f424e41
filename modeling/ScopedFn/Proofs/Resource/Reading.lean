import ScopedFn.Proofs.Result
import ScopedFn.Proofs.Value.Display
import ScopedFn.Resource.Basic

/-!
# Reading metadata

Metadata is read part by part: the text fields first, then annotations and labels as text maps.
Each part has to have its shape, and each value that a text is wanted of has to be given as text.

* `textMap_cons_iff` : a text map is read entry by entry;
* `Resource.metadata_eq_ok_iff`, `textMap_eq_ok_iff` : the shapes of the parts;
* `Resource.getMeta_eq_ok_iff` : the metadata that is read, part by part;
* `Resource.IsFirstUnreadable` : which one of several resources cannot be read first.
-/

set_option autoImplicit false

namespace ScopedFn

variable {part : String} {texts : TextMap} {v : Value}

namespace textMap

variable {k : Atom}

/-- A key that is no text is reported, if it can be. -/
theorem entry_of_ne_text (h : ∀ s, k ≠ .text s) :
    entry part k v = (k.shownInside.mapError .noText).bind fun shown =>
      .error (.fault (.keyNotText part shown)) := by
  unfold entry
  split
  · exact absurd rfl (h _)
  · cases k.shownInside <;> rfl

theorem entry_eq_ok_iff {e : String × String} :
    entry part k v = .ok e ↔ ∃ s, k = .text s ∧ v.textFault? = none ∧
      e = (s, if v.isNull then "" else v.display) := by
  obtain ⟨s, rfl⟩ | h : (∃ s, k = .text s) ∨ ∀ s, k ≠ .text s := by cases k <;> simp
  · cases hnull : v.isNull with
    | true =>
      have hgiven : v.textFault? = none := by
        rw [Value.isNull_iff.1 hnull]
        rfl
      simpa [entry, hnull, hgiven] using eq_comm
    | false =>
      rw [entry, hnull, if_neg (by decide), Result.mapError_ok_iff]
      constructor
      · intro h
        obtain ⟨text, htext, rfl⟩ := Result.ok_of_map h
        obtain ⟨hgiven, rfl⟩ := Value.shown_eq_ok_iff.1 htext
        exact ⟨s, rfl, hgiven, rfl⟩
      · rintro ⟨s', hs, hgiven, rfl⟩
        obtain rfl := Atom.text.inj hs
        rw [Value.shown_eq_ok_iff.2 ⟨hgiven, rfl⟩]
        rfl
  · refine iff_of_false ?_ fun ⟨s, hs, _⟩ => h s hs
    rw [entry_of_ne_text h]
    cases k.shownInside <;> nofun

end textMap

/-- A section is read as a text map entry by entry, and all its keys are texts. -/
theorem textMap_cons_iff {id : ObjectId} {es : MapEntries} {k : Atom} :
    textMap part (.map id ((k, v) :: es)) = .ok texts ↔ ∃ s texts', k = .text s ∧
      v.textFault? = none ∧ textMap part (.map id es) = .ok texts' ∧
      texts = (s, if v.isNull then "" else v.display) :: texts' := by
  rw [textMap, textMap, List.mapM_cons, Result.bind_ok_iff]
  constructor
  · rintro ⟨entry, hentry, h⟩
    obtain ⟨texts', htexts, h⟩ := Result.ok_of_bind h
    obtain ⟨s, hk, hgiven, rfl⟩ := textMap.entry_eq_ok_iff.1 hentry
    exact ⟨s, texts', hk, hgiven, htexts, (Except.ok.inj h).symm⟩
  · rintro ⟨s, texts', hk, hgiven, htexts, rfl⟩
    refine ⟨_, textMap.entry_eq_ok_iff.2 ⟨s, hk, hgiven, rfl⟩, ?_⟩
    rw [htexts]
    rfl

/-- What is read as a text map is null or a map. -/
theorem map_or_null_of_textMap (h : textMap part v = .ok texts) :
    v = .null ∧ texts = [] ∨ ∃ id es, v = .map id es := by
  unfold textMap at h
  split at h
  · exact .inl ⟨rfl, (Except.ok.inj h).symm⟩
  · exact .inr ⟨_, _, rfl⟩
  · cases h

namespace Resource

variable {r : Resource} {m : Meta} {es : MapEntries}

theorem metadata_eq_ok_iff : r.metadata = .ok es ↔
    r.entries.get "metadata" = .null ∧ es = [] ∨
      ∃ id, r.entries.get "metadata" = .map id es := by
  unfold metadata
  split
  · rename_i hnull
    simp [hnull, eq_comm]
  · rename_i id es' hmap
    simp [hmap]
  · rename_i hnull hmap
    refine iff_of_false nofun ?_
    rintro (⟨heq, -⟩ | ⟨id, heq⟩)
    · exact hnull heq
    · exact hmap id es heq

/-- The parts that the metadata is read from. -/
theorem getMeta_eq_ok_iff : r.getMeta = .ok m ↔ ∃ es, r.metadata = .ok es ∧
    textMap "metadata.annotations" (MapEntries.get es "annotations") = .ok m.annotations ∧
    textMap "metadata.labels" (MapEntries.get es "labels") = .ok m.labels ∧
    r.apiVersion = .ok m.apiVersion ∧ r.kind = .ok m.kind ∧
    (MapEntries.get es "name").shownFilled = .ok m.name ∧
    (MapEntries.get es "namespace").shownFilled = .ok m.space := by
  simp only [getMeta, Result.bind_ok_iff, Result.mapError_ok_iff]
  constructor
  · rintro ⟨es, hes, version, hversion, kind, hkind, name, hname, space, hspace, annotations,
      hannotations, labels, hlabels, h⟩
    obtain rfl := Except.ok.inj h
    exact ⟨es, hes, hannotations, hlabels, hversion, hkind, hname, hspace⟩
  · rintro ⟨es, hes, hannotations, hlabels, hversion, hkind, hname, hspace⟩
    exact ⟨es, hes, _, hversion, _, hkind, _, hname, _, hspace, _, hannotations, _, hlabels, rfl⟩

/-! ### Metadata of several resources -/

/-- The resource at the position is the first one whose metadata cannot be read. -/
def IsFirstUnreadable (rs : List Resource) (position : ℕ) (cause : OrNoText MetaFault) : Prop :=
  (∃ r, rs[position]? = some r ∧ r.getMeta = .error cause) ∧
    ∀ n < position, ∀ r, rs[n]? = some r → ∃ m, r.getMeta = .ok m

variable {rs : List Resource} {cause : OrNoText MetaFault}

theorem isFirstUnreadable_zero : IsFirstUnreadable (r :: rs) 0 cause ↔ r.getMeta = .error cause := by
  simp [IsFirstUnreadable]

theorem isFirstUnreadable_succ {position : ℕ} :
    IsFirstUnreadable (r :: rs) (position + 1) cause ↔
      (∃ m, r.getMeta = .ok m) ∧ IsFirstUnreadable rs position cause := by
  simp only [IsFirstUnreadable, List.getElem?_cons_succ, Nat.forall_lt_succ_left,
    List.getElem?_cons_zero, Option.some.injEq, forall_eq']
  exact and_left_comm

/-- Metadata is read resource by resource, up to the first one whose metadata cannot be read. -/
theorem mapM_getMeta_eq_error_iff :
    rs.mapM getMeta = .error cause ↔ ∃ position, IsFirstUnreadable rs position cause := by
  induction rs with
  | nil => simp [IsFirstUnreadable, pure, Except.pure]
  | cons r rs ih =>
    rw [List.mapM_cons]
    cases hr : r.getMeta with
    | error cause' =>
      show (Except.error cause' : Except _ (List Meta)) = .error cause ↔ _
      constructor
      · intro h
        obtain rfl := Except.error.inj h
        exact ⟨0, isFirstUnreadable_zero.2 hr⟩
      · rintro ⟨position, hfirst⟩
        cases position with
        | zero => rw [Except.error.inj (hr.symm.trans (isFirstUnreadable_zero.1 hfirst))]
        | succ position => simp [isFirstUnreadable_succ, hr] at hfirst
    | ok m =>
      have hrest : (do let ms ← rs.mapM getMeta; return m :: ms :
          Except (OrNoText MetaFault) (List Meta)) = .error cause ↔
            rs.mapM getMeta = .error cause := by
        cases rs.mapM getMeta <;> simp [bind, Except.bind, pure, Except.pure]
      refine hrest.trans (ih.trans ⟨fun ⟨position, hfirst⟩ =>
        ⟨position + 1, isFirstUnreadable_succ.2 ⟨⟨m, hr⟩, hfirst⟩⟩, ?_⟩)
      rintro ⟨position, hfirst⟩
      cases position with
      | zero => cases hr.symm.trans (isFirstUnreadable_zero.1 hfirst)
      | succ position => exact ⟨position, (isFirstUnreadable_succ.1 hfirst).2⟩

theorem IsFirstUnreadable.cause_unique {position position' : ℕ} {cause' : OrNoText MetaFault}
    (h : IsFirstUnreadable rs position cause) (h' : IsFirstUnreadable rs position' cause') :
    cause = cause' :=
  Except.error.inj ((mapM_getMeta_eq_error_iff.2 ⟨_, h⟩).symm.trans
    (mapM_getMeta_eq_error_iff.2 ⟨_, h'⟩))

/-- If all metadata can be read, no resource is the first one whose metadata cannot be. -/
theorem not_isFirstUnreadable_of_read (h : ∀ r ∈ rs, ∃ m, r.getMeta = .ok m) :
    ¬∃ position cause, IsFirstUnreadable rs position (.noText cause) := by
  rintro ⟨position, cause, ⟨r, hr, hmeta⟩, -⟩
  obtain ⟨m, hm⟩ := h r (List.mem_of_getElem? hr)
  cases hm.symm.trans hmeta

/-- A resource whose name is a number with more digits than are given as text. -/
def longNamed : Resource :=
  ⟨1, [(.text "metadata", .map 2 [(.text "name", .int (Int.pow 16 3600))])]⟩

theorem getMeta_longNamed : longNamed.getMeta = .error (.noText .numberTooLong) := by
  decide +kernel

end Resource

end ScopedFn
