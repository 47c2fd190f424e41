import ScopedFn.Declaration
import ScopedFn.Proofs.Result
import ScopedFn.Proofs.Value.Decidable
import ScopedFn.Proofs.Value.Display

/-!
# Reading a declaration

A declaration is read field by field. It is of use if it names an image or an executable and if its
mounts are maps. But a text is wanted of each field on the way, and one that is given as none is
found out before the rest is looked at.

* `FunctionSpec.IsSound` : the declarations that name something to run, with mounts that are maps;
* `FunctionSpec.Withholds` : the declarations with a field, on the way, that is given as no text;
* `FunctionSpec.ofValue?_cases` : what becomes of a declaration;
* `FunctionSpec.Comes`, `FunctionSpec.comes_ofSource?` : the same for a declaration that may be a text.
-/

set_option autoImplicit false

namespace ScopedFn

/-- What going through a value gives: the items of a list, the keys of a map, the characters of a
text. There are values that one cannot go through. -/
def Value.members? : Value → Option (List Value)
  | .list _ items | .tuple _ items => some items
  | .map _ es => some (es.map fun e => .atom e.1)
  | .set _ ms => some (ms.map .atom)
  | .atom (.text s) | .atom (.torn s) => some (s.toList.map fun c => .text (String.singleton c))
  | .atom (.bytes b) => some (b.map fun x => .int x.toNat)
  | .atom (.tuple _ items) => some (items.map .atom)
  | .atom _ => none

/-- The items of a list, or of a tuple that is no key. -/
def Value.items? : Value → Option (List Value)
  | .list _ items | .tuple _ items => some items
  | _ => none

/-- The field of a map is filled with what is given as no text. -/
def MapEntries.Withholds (es : MapEntries) (key : String) : Prop := (es.get key).textFault? ≠ none

theorem shownFilled_cases (v : Value) :
    v.textFault? ≠ none ∧ (∃ cause, v.shownFilled = .error cause) ∨
      v.textFault? = none ∧ v.shownFilled = .ok v.displayFilled := by
  cases h : v.textFault? with
  | none => exact .inr ⟨rfl, Value.shownFilled_eq_ok_iff.2 ⟨h, rfl⟩⟩
  | some cause => exact .inl ⟨nofun, cause, Value.shownFilled_eq_error_iff.2 h⟩

/-! ### Mounts -/

namespace Mount

/-- The fields of a mount. -/
def fields : List String := ["type", "src", "dst"]

/-- The value is a map, and the fields of a mount are given as texts. -/
def IsGiven (v : Value) : Prop := ∃ id es, v = .map id es ∧ ∀ key ∈ fields, ¬MapEntries.Withholds es key

/-- The value is a map, and a field of a mount is given as no text. -/
def IsWithheld (v : Value) : Prop := ∃ id es, v = .map id es ∧ ∃ key ∈ fields, MapEntries.Withholds es key

/-- The parts that a mount is read from. -/
theorem ofValue_map_eq_ok_iff {id : ObjectId} {es : MapEntries} {m : Mount} :
    ofValue (.map id es) = .ok m ↔
      ((MapEntries.get es "type").textFault? = none ∧
        (MapEntries.get es "type").displayFilled = m.type) ∧
      ((MapEntries.get es "src").textFault? = none ∧
        (MapEntries.get es "src").displayFilled = m.source) ∧
      (MapEntries.get es "dst").textFault? = none ∧
        (MapEntries.get es "dst").displayFilled = m.target := by
  simp only [ofValue, Result.bind_ok_iff, Result.mapError_ok_iff, ← Value.shownFilled_eq_ok_iff]
  constructor
  · rintro ⟨type, htype, source, hsource, target, htarget, h⟩
    obtain rfl := Except.ok.inj h
    exact ⟨htype, hsource, htarget⟩
  · rintro ⟨htype, hsource, htarget⟩
    exact ⟨_, htype, _, hsource, _, htarget, rfl⟩

/-- What becomes of a mount. -/
theorem ofValue_cases (v : Value) :
    IsGiven v ∧ (∃ mount, ofValue v = .ok mount) ∨
      IsWithheld v ∧ (∃ cause, ofValue v = .error (.noText cause)) ∨
      (¬∃ id es, v = .map id es) ∧ ∃ fault, ofValue v = .error (.fault fault) := by
  cases v with
  | map id es =>
    rw [ofValue]
    have hwithheld : ∀ key ∈ fields, MapEntries.Withholds es key → IsWithheld (.map id es) :=
      fun key hkey h => ⟨id, es, rfl, key, hkey, h⟩
    rcases shownFilled_cases (MapEntries.get es "type") with ⟨htype, cause, h⟩ | ⟨htype, h⟩
    · exact .inr (.inl ⟨hwithheld "type" (by decide) htype, cause, by rw [h]; rfl⟩)
    rcases shownFilled_cases (MapEntries.get es "src") with ⟨hsource, cause, h'⟩ | ⟨hsource, h'⟩
    · exact .inr (.inl ⟨hwithheld "src" (by decide) hsource, cause, by rw [h, h']; rfl⟩)
    rcases shownFilled_cases (MapEntries.get es "dst") with ⟨htarget, cause, h''⟩ | ⟨htarget, h''⟩
    · exact .inr (.inl ⟨hwithheld "dst" (by decide) htarget, cause, by rw [h, h', h'']; rfl⟩)
    refine .inl ⟨⟨id, es, rfl, ?_⟩, _, by rw [h, h', h'']; rfl⟩
    simp [fields, MapEntries.Withholds, htype, hsource, htarget]
  | _ => exact .inr (.inr ⟨by simp, _, rfl⟩)

theorem IsGiven.not_isWithheld {v : Value} (h : IsGiven v) : ¬IsWithheld v := by
  rintro ⟨id, es, rfl, key, hkey, hwithheld⟩
  obtain ⟨_, _, heq, hgiven⟩ := h
  obtain ⟨-, rfl⟩ := Value.map.inj heq
  exact hgiven key hkey hwithheld

end Mount

namespace FunctionSpec

/-- There are no mounts, or they are maps. -/
def MountsReadable (v : Value) : Prop :=
  v.isFilled = false ∨ ∃ items, v.members? = some items ∧ ∀ item ∈ items, ∃ id es, item = .map id es

/-- Behind mounts whose fields are given as texts, there is one with a field that is not. -/
def MountsWithheld (v : Value) : Prop :=
  ∃ before item after, v.items? = some (before ++ item :: after) ∧
    (∀ m ∈ before, Mount.IsGiven m) ∧ Mount.IsWithheld item

variable {v : Value} {es : MapEntries} {items : List Value}

/-- What becomes of mounts, one after the other. -/
theorem mapM_ofValue_cases (items : List Value) :
    (∀ item ∈ items, Mount.IsGiven item) ∧ (∃ mounts, items.mapM Mount.ofValue = .ok mounts) ∨
      ∃ before item after, items = before ++ item :: after ∧ (∀ m ∈ before, Mount.IsGiven m) ∧
        (Mount.IsWithheld item ∧ (∃ cause, items.mapM Mount.ofValue = .error (.noText cause)) ∨
          (¬∃ id es, item = .map id es) ∧ ∃ fault, items.mapM Mount.ofValue = .error (.fault fault)) := by
  induction items with
  | nil => exact .inl ⟨nofun, [], rfl⟩
  | cons item items ih =>
    rw [List.mapM_cons]
    rcases Mount.ofValue_cases item with ⟨hgiven, m, hm⟩ | ⟨hwithheld, cause, h⟩ | ⟨hmap, fault, h⟩
    · rw [hm]
      rcases ih with ⟨hall, mounts, hok⟩ | ⟨before, bad, after, rfl, hbefore, hbad⟩
      · exact .inl ⟨List.forall_mem_cons.2 ⟨hgiven, hall⟩, m :: mounts, by rw [hok]; rfl⟩
      · refine .inr ⟨item :: before, bad, after, rfl, List.forall_mem_cons.2 ⟨hgiven, hbefore⟩, ?_⟩
        exact hbad.imp (And.imp_right fun ⟨cause, h⟩ => ⟨cause, by rw [h]; rfl⟩)
          (And.imp_right fun ⟨fault, h⟩ => ⟨fault, by rw [h]; rfl⟩)
    · rw [h]
      exact .inr ⟨[], item, items, rfl, nofun, .inl ⟨hwithheld, cause, rfl⟩⟩
    · rw [h]
      exact .inr ⟨[], item, items, rfl, nofun, .inr ⟨hmap, fault, rfl⟩⟩

/-- The first mount that is not given as it should be decides what is wrong. -/
theorem not_mountsWithheld {before after : List Value} {item : Value}
    (hitems : v.items? = some (before ++ item :: after)) (hbefore : ∀ m ∈ before, Mount.IsGiven m)
    (hitem : ¬∃ id es, item = .map id es) : ¬MountsWithheld v := by
  rintro ⟨before', item', after', hitems', hbefore', id, es, rfl, key, hkey, hwithheld⟩
  rw [hitems, Option.some.injEq] at hitems'
  rcases List.append_eq_append_iff.1 hitems' with ⟨_ | ⟨x, xs⟩, rfl, h⟩ | ⟨_ | ⟨x, xs⟩, rfl, h⟩
  · exact hitem ⟨id, es, (List.cons.inj h).1⟩
  · obtain ⟨rfl, -⟩ := List.cons.inj h
    obtain ⟨id, es, hmap, -⟩ := hbefore' item (by simp)
    exact hitem ⟨id, es, hmap⟩
  · exact hitem ⟨id, es, (List.cons.inj h).1.symm⟩
  · obtain ⟨rfl, -⟩ := List.cons.inj h
    exact (hbefore _ (by simp)).not_isWithheld ⟨id, es, rfl, key, hkey, hwithheld⟩

theorem not_forall_map {α : Type} {f : α → Atom} {xs : List α} (h : xs ≠ []) :
    ¬∀ item ∈ xs.map fun x => Value.atom (f x), ∃ id es, item = .map id es := by
  obtain ⟨x, xs, rfl⟩ := List.exists_cons_of_ne_nil h
  intro hmaps
  obtain ⟨id, es, hmap⟩ := hmaps _ List.mem_cons_self
  cases hmap

/-- What is no list and not empty holds no map. -/
theorem not_members_maps (hfilled : v.isFilled = true) (hitems : v.items? = none)
    (h : v.members? = some items) : ¬∀ item ∈ items, ∃ id es, item = .map id es := by
  cases v with
  | list id items => cases hitems
  | tuple id items => cases hitems
  | map id es =>
    obtain rfl := Option.some.inj h
    exact not_forall_map (by simpa [Value.isFilled] using hfilled)
  | set id ms =>
    obtain rfl := Option.some.inj h
    exact not_forall_map (by simpa [Value.isFilled] using hfilled)
  | atom a =>
    cases a with
    | text s | torn s =>
      obtain rfl := Option.some.inj h
      exact not_forall_map (by simpa [Value.isFilled, Atom.isFilled] using hfilled)
    | bytes b =>
      obtain rfl := Option.some.inj h
      exact not_forall_map (by simpa [Value.isFilled, Atom.isFilled] using hfilled)
    | tuple id as =>
      obtain rfl := Option.some.inj h
      exact not_forall_map (by simpa [Value.isFilled, Atom.isFilled] using hfilled)
    | _ => cases h

/-- What is gone through item by item is what is read as mounts. -/
theorem mounts?_of_items? (hfilled : v.isFilled = true) (hitems : v.items? = some items) :
    mounts? v = items.mapM Mount.ofValue ∧ v.members? = some items := by
  unfold mounts?
  rw [if_pos hfilled]
  cases v with
  | list id xs | tuple id xs =>
    obtain rfl := Option.some.inj hitems
    exact ⟨rfl, rfl⟩
  | _ => cases hitems

/-- Mounts that are not filled are no mounts. -/
theorem mounts?_of_not_isFilled (hfilled : v.isFilled = false) :
    ¬MountsWithheld v ∧ mounts? v = .ok [] := by
  constructor
  · rintro ⟨before, item, after, hitems, -⟩
    cases v <;> simp_all [Value.items?, Value.isFilled]
  · unfold mounts?
    rw [if_neg (by simp [hfilled])]

/-- What is not gone through item by item is not read as mounts. -/
theorem mounts?_of_items?_eq_none (hfilled : v.isFilled = true) (hitems : v.items? = none) :
    ¬MountsWithheld v ∧ ¬MountsReadable v ∧ ∃ fault, mounts? v = .error (.fault fault) := by
  refine ⟨?_, ?_, ?_⟩
  · rintro ⟨before, item, after, h, -⟩
    cases hitems.symm.trans h
  · rintro (hempty | ⟨items, hmembers, hmaps⟩)
    · cases hfilled.symm.trans hempty
    · exact not_members_maps hfilled hitems hmembers hmaps
  · unfold mounts?
    rw [if_pos hfilled]
    cases v with
    | list id xs => cases hitems
    | tuple id xs => cases hitems
    | _ => exact ⟨_, rfl⟩

/-- What becomes of the mounts of a declaration. -/
theorem mounts?_cases (v : Value) :
    MountsWithheld v ∧ (∃ cause, mounts? v = .error (.noText cause)) ∨
      ¬MountsWithheld v ∧ MountsReadable v ∧ (∃ mounts, mounts? v = .ok mounts) ∨
      ¬MountsWithheld v ∧ ¬MountsReadable v ∧ ∃ fault, mounts? v = .error (.fault fault) := by
  cases hfilled : v.isFilled with
  | false =>
    obtain ⟨hnone, hempty⟩ := mounts?_of_not_isFilled hfilled
    exact .inr (.inl ⟨hnone, .inl hfilled, [], hempty⟩)
  | true =>
    cases hitems : v.items? with
    | none => exact .inr (.inr (mounts?_of_items?_eq_none hfilled hitems))
    | some items =>
      obtain ⟨hmounts, hmembers⟩ := mounts?_of_items? hfilled hitems
      rw [hmounts]
      rcases mapM_ofValue_cases items with
        ⟨hall, mounts, hok⟩ | ⟨before, item, after, rfl, hbefore, ⟨hitem, cause, h⟩ | ⟨hitem, fault, h⟩⟩
      · refine .inr (.inl ⟨?_, .inr ⟨items, hmembers, fun item hitem => ?_⟩, mounts, hok⟩)
        · rintro ⟨before, item, after, h, -, hwithheld⟩
          obtain rfl := Option.some.inj (hitems.symm.trans h)
          exact (hall item (by simp)).not_isWithheld hwithheld
        · obtain ⟨id, es, hmap, -⟩ := hall item hitem
          exact ⟨id, es, hmap⟩
      · exact .inl ⟨⟨before, item, after, hitems, hbefore, hitem⟩, cause, h⟩
      · refine .inr (.inr ⟨not_mountsWithheld hitems hbefore hitem, ?_, fault, h⟩)
        rintro (hempty | ⟨items, hmembers', hmaps⟩)
        · cases hfilled.symm.trans hempty
        · obtain rfl := Option.some.inj (hmembers.symm.trans hmembers')
          exact hitem (hmaps item (by simp))

/-! ### Declarations -/

/-- The declaration names an image or an executable. -/
def NamesRuntime (es : MapEntries) : Prop :=
  (∃ id container, es.get "container" = .map id container ∧
      (MapEntries.get container "image").isFilled = true) ∨
    ∃ id exec, es.get "exec" = .map id exec ∧ (MapEntries.get exec "path").isFilled = true

/-- The mounts of a container can be read, if there is one. -/
def ContainerReadable (v : Value) : Prop :=
  ∀ id container, v = .map id container → MountsReadable (MapEntries.get container "mounts")

/-- The declaration names something to run, and its mounts are readable. -/
structure IsSound (es : MapEntries) : Prop where
  /-- Something is named that can be run. -/
  runtime : NamesRuntime es
  /-- The mounts of a container can be read. -/
  mounts : ContainerReadable (es.get "container")

/-- A text is wanted of a part of the container that is given as none: its image, or else the field
of a mount. -/
def ContainerWithheld (v : Value) : Prop :=
  ∃ id container, v = .map id container ∧
    (MapEntries.Withholds container "image" ∨ MountsWithheld (MapEntries.get container "mounts"))

/-- A text is wanted of a field that is given as none: of one of the container, or, if the container
can be read, of the path of the executable. -/
def Withholds (es : MapEntries) : Prop :=
  ContainerWithheld (es.get "container") ∨ ContainerReadable (es.get "container") ∧
    ∃ id exec, es.get "exec" = .map id exec ∧ MapEntries.Withholds exec "path"

/-- The container that is read has an image. -/
def HasImage (container : Option ContainerSpec) : Prop := container.any (·.image != "") = true

/-- What becomes of the container of a declaration. -/
theorem container?_cases (v : Value) :
    ContainerWithheld v ∧ (∃ cause, container? v = .error (.noText cause)) ∨
      ¬ContainerWithheld v ∧ ContainerReadable v ∧ (∃ container, container? v = .ok container ∧
        (HasImage container ↔ ∃ id es, v = .map id es ∧ (MapEntries.get es "image").isFilled = true)) ∨
      ¬ContainerWithheld v ∧ ¬ContainerReadable v ∧
        ∃ fault, container? v = .error (.fault fault) := by
  cases v with
  | map id es =>
    have hreadable : ContainerReadable (.map id es) ↔ MountsReadable (MapEntries.get es "mounts") :=
      ⟨fun h => h id es rfl, fun h _ _ heq => (Value.map.inj heq).2 ▸ h⟩
    have hwithheld : ContainerWithheld (.map id es) ↔
        MapEntries.Withholds es "image" ∨ MountsWithheld (MapEntries.get es "mounts") :=
      ⟨fun ⟨_, _, heq, h⟩ => (Value.map.inj heq).2 ▸ h, fun h => ⟨id, es, rfl, h⟩⟩
    rw [hreadable, hwithheld, container?]
    rcases shownFilled_cases (MapEntries.get es "image") with ⟨himage, cause, h⟩ | ⟨himage, h⟩
    · rw [h]
      exact .inl ⟨.inl himage, cause, rfl⟩
    have hor : MapEntries.Withholds es "image" ∨ MountsWithheld (MapEntries.get es "mounts") ↔
        MountsWithheld (MapEntries.get es "mounts") := or_iff_right (not_not.2 himage)
    rw [h, hor]
    rcases mounts?_cases (MapEntries.get es "mounts") with
      ⟨hmounts, cause, h'⟩ | ⟨hmounts, hmaps, mounts, h'⟩ | ⟨hmounts, hmaps, fault, h'⟩
    · rw [h']
      exact .inl ⟨hmounts, cause, rfl⟩
    · rw [h']
      refine .inr (.inl ⟨hmounts, hmaps, _, rfl, ?_⟩)
      simp [HasImage, Value.displayFilled_eq_empty_iff]
    · rw [h']
      exact .inr (.inr ⟨hmounts, hmaps, fault, rfl⟩)
  | _ =>
    refine .inr (.inl ⟨by simp [ContainerWithheld], by simp [ContainerReadable], none, rfl, ?_⟩)
    simp [HasImage]

/-- What becomes of the executable of a declaration. -/
theorem executable_cases (v : Value) :
    (∃ id es, v = .map id es ∧ MapEntries.Withholds es "path") ∧
        (∃ cause, executable v = .error cause) ∨
      (¬∃ id es, v = .map id es ∧ MapEntries.Withholds es "path") ∧ ∃ path, executable v = .ok path ∧
        (path ≠ "" ↔ ∃ id es, v = .map id es ∧ (MapEntries.get es "path").isFilled = true) := by
  cases v with
  | map id es =>
    rw [executable]
    rcases shownFilled_cases (MapEntries.get es "path") with ⟨hpath, cause, h⟩ | ⟨hpath, h⟩
    · exact .inl ⟨⟨id, es, rfl, hpath⟩, cause, h⟩
    · refine .inr ⟨?_, _, h, by simp [Value.displayFilled_eq_empty_iff]⟩
      rintro ⟨_, _, heq, hwithheld⟩
      obtain ⟨-, rfl⟩ := Value.map.inj heq
      exact hwithheld hpath
  | _ => exact .inr ⟨by simp, "", rfl, by simp⟩

/-- **What becomes of a declaration.** If a text is wanted of a field that is given as none, there is
a fault. Else it is of use iff it is sound, and what is read runs something. -/
theorem ofValue?_cases (id : ObjectId) (es : MapEntries) :
    Withholds es ∧ (∃ cause, ofValue? (.map id es) = .error cause) ∨
      ¬Withholds es ∧ IsSound es ∧
        (∃ spec, ofValue? (.map id es) = .ok (some spec) ∧ spec.isExecutable = true) ∨
      ¬Withholds es ∧ ¬IsSound es ∧ ofValue? (.map id es) = .ok none := by
  unfold Withholds
  rw [ofValue?]
  rcases container?_cases (es.get "container") with
    ⟨hcontainer, cause, h⟩ | ⟨hcontainer, hmounts, container, h, himage⟩ | ⟨hcontainer, hmounts, fault, h⟩
  · rw [h]
    exact .inl ⟨.inl hcontainer, cause, rfl⟩
  · rw [h, or_iff_right hcontainer, and_iff_right hmounts]
    dsimp only
    rcases executable_cases (es.get "exec") with ⟨hpath, cause, h'⟩ | ⟨hpath, path, h', hfilled⟩
    · rw [h']
      exact .inl ⟨hpath, cause, rfl⟩
    · rw [h']
      dsimp only [bind, Except.bind]
      have hruns : (⟨container, path⟩ : FunctionSpec).isExecutable = true ↔ NamesRuntime es := by
        rw [NamesRuntime, ← himage, ← hfilled]
        simp [isExecutable, HasImage]
      split_ifs with hexecutable
      · exact .inr (.inl ⟨hpath, ⟨hruns.1 hexecutable, hmounts⟩, _, rfl, hexecutable⟩)
      · exact .inr (.inr ⟨hpath, fun hsound => hexecutable (hruns.2 hsound.runtime), rfl⟩)
  · rw [h]
    refine .inr (.inr ⟨?_, fun hsound => hmounts hsound.mounts, rfl⟩)
    exact not_or.2 ⟨hcontainer, fun hpath => hmounts hpath.1⟩

/-! ### Declarations that may be texts -/

/-- The value is a map with these entries, or the text of a document that holds one. -/
inductive Says : Value → MapEntries → Prop where
  /-- The value is the map. -/
  | map (id : ObjectId) (es : MapEntries) : Says (.map id es) es
  /-- The value is a text that can be read. -/
  | text {s : String} {id : ObjectId} {es : MapEntries} (h : document s = .ok (.map id es)) :
    Says (.text s) es

/-- If the value is a text, it can be told what it says. The texts left are those that merge a map
into a part of itself, and those with halves of surrogate pairs beside stand-ins of them. -/
def IsFollowed (v : Value) : Prop := ∀ s, v = .text s → document s ≠ .error .unfollowed

/-- The value is the text of a document with a scalar that does not denote what its form or its tag
promises. -/
def IsSenseless (v : Value) : Prop :=
  ∃ s fault, v = .text s ∧ s ≠ "" ∧ document s = .error fault ∧ fault ≠ .malformed ∧
    fault ≠ .timeNotText ∧ fault ≠ .unfollowed

/-- The value says a sound declaration. -/
def SaysSound (v : Value) : Prop := ∃ es, Says v es ∧ IsSound es

/-- The value says a declaration with a field that is given as no text. -/
def SaysWithheld (v : Value) : Prop := ∃ es, Says v es ∧ Withholds es

theorem Says.unique {es' : MapEntries} (h : Says v es) (h' : Says v es') : es = es' := by
  cases h with
  | map id es =>
    cases h' with
    | map id es' => rfl
  | text h =>
    cases h' with
    | text h' => exact (Value.map.inj (Except.ok.inj (h.symm.trans h'))).2

theorem not_isSound_nil : ¬IsSound [] := by
  rintro ⟨⟨id, es, h, -⟩ | ⟨id, es, h, -⟩, -⟩ <;> cases h

theorem not_withholds_nil : ¬Withholds [] := by
  rintro (⟨id, es, h, -⟩ | ⟨-, id, es, h, -⟩) <;> cases h

theorem document_empty : document "" = .ok .null := by
  have hread : (Yaml.readFreely "").run firstIdentity = .ok (.null, firstIdentity) := by
    decide +kernel
  rw [document, hread]
  rfl

/-- Only maps are read as declarations. -/
theorem ofValue?_of_not_map (h : ¬∃ id es, v = .map id es) : ofValue? v = .ok none := by
  cases v with
  | map id es => exact absurd ⟨id, es, rfl⟩ h
  | _ => rfl

/-- What becomes of a value, in terms of another one that says the same. -/
theorem ofValue?_cases_of_says {w : Value} (hdeclares : ∀ es, Says v es ↔ ∃ id, w = .map id es) :
    SaysWithheld v ∧ (∃ cause, ofValue? w = .error cause) ∨
      ¬SaysWithheld v ∧ SaysSound v ∧
        (∃ spec, ofValue? w = .ok (some spec) ∧ spec.isExecutable = true) ∨
      ¬SaysWithheld v ∧ ¬SaysSound v ∧ ofValue? w = .ok none := by
  by_cases hmap : ∃ id es, w = .map id es
  · obtain ⟨id, es, rfl⟩ := hmap
    have hsound : SaysSound v ↔ IsSound es := by simp [SaysSound, hdeclares]
    have hwithheld : SaysWithheld v ↔ Withholds es := by simp [SaysWithheld, hdeclares]
    rw [hsound, hwithheld]
    exact ofValue?_cases id es
  · have hnone : ∀ es, ¬Says v es := fun es h => by
      obtain ⟨id, rfl⟩ := (hdeclares es).1 h
      exact hmap ⟨id, es, rfl⟩
    exact .inr (.inr ⟨fun ⟨es, h, _⟩ => hnone es h, fun ⟨es, h, _⟩ => hnone es h,
      ofValue?_of_not_map hmap⟩)

theorem says_text_iff {s : String} {w : Value} (h : document s = .ok w) :
    Says (.text s) es ↔ ∃ id, w = .map id es := by
  constructor
  · rintro (_ | hread)
    exact ⟨_, Except.ok.inj (h.symm.trans hread)⟩
  · rintro ⟨id, rfl⟩
    exact .text h

theorem says_iff (h : ∀ s, v ≠ .text s) : Says v es ↔ ∃ id, v = .map id es := by
  constructor
  · intro hdeclares
    cases hdeclares with
    | map id es => exact ⟨id, rfl⟩
    | text hread => exact absurd rfl (h _)
  · rintro ⟨id, rfl⟩
    exact .map id es

/-- What says nothing is neither sound nor withheld. -/
theorem not_says (h : ∀ es, ¬Says v es) : ¬SaysWithheld v ∧ ¬SaysSound v :=
  ⟨fun ⟨es, hes, _⟩ => h es hes, fun ⟨es, hes, _⟩ => h es hes⟩

/-- What is sound makes sense. -/
theorem SaysSound.not_isSenseless (h : SaysSound v) : ¬IsSenseless v := by
  rintro ⟨s, fault, rfl, -, hdocument, -⟩
  obtain ⟨es, hes, -⟩ := h
  cases hes with
  | text hread => cases hread.symm.trans hdocument

/-- What becomes of a value that may be a declaration. -/
inductive Comes (v : Value) : Except (OrNoText Yaml.Fault) (Option FunctionSpec) → Prop where
  /-- It is a text that is sound and senseless. -/
  | senseless (fault : Yaml.Fault) (h : IsSenseless v) : Comes v (.error (.fault fault))
  /-- A text is wanted of a field that is given as none. -/
  | withheld (cause : TextFault) (h : SaysWithheld v) : Comes v (.error (.noText cause))
  /-- It says a sound declaration, and what is read runs something. -/
  | sound {spec : FunctionSpec} (hgiven : ¬SaysWithheld v) (h : SaysSound v)
    (hruns : spec.isExecutable = true) : Comes v (.ok (some spec))
  /-- It is of no use. -/
  | useless (hsense : ¬IsSenseless v) (hgiven : ¬SaysWithheld v) (h : ¬SaysSound v) :
    Comes v (.ok none)

/-- A value that makes sense comes to what is read of another one that says the same. -/
theorem comes_of_says {w : Value} (hsense : ¬IsSenseless v)
    (hsame : ∀ es, Says v es ↔ ∃ id, w = .map id es) :
    Comes v ((ofValue? w).mapError .noText) := by
  rcases ofValue?_cases_of_says hsame with
    ⟨hwithheld, cause, hw⟩ | ⟨hgiven, hsound, spec, hw, hruns⟩ | ⟨hgiven, hsound, hw⟩
  · rw [hw]
    exact .withheld cause hwithheld
  · rw [hw]
    exact .sound hgiven hsound hruns
  · rw [hw]
    exact .useless hsense hgiven hsound

theorem comes_of_text {s : String} (hfollowed : document s ≠ .error .unfollowed) :
    Comes (.text s) (ofSource? (.text s)) := by
  have hsense : IsSenseless (.text s) ↔ s ≠ "" ∧ ∃ fault, document s = .error fault ∧
      fault ≠ .malformed ∧ fault ≠ .timeNotText ∧ fault ≠ .unfollowed := by
    simp [IsSenseless]
  rw [ofSource?]
  split_ifs with hs
  · subst hs
    obtain ⟨hgiven, hsound⟩ := not_says fun es h => by
      obtain ⟨id, hnull⟩ := (says_text_iff document_empty).1 h
      cases hnull
    exact .useless (by simp [hsense]) hgiven hsound
  cases hread : document s with
  | ok w => exact comes_of_says (by simp [hsense, hread]) fun es => says_text_iff hread
  | error fault =>
    obtain ⟨hgiven, hsound⟩ := not_says (v := .text s) fun es h => by
      cases h with
      | text h => cases hread.symm.trans h
    cases fault with
    | malformed => exact .useless (by simp [hsense, hread]) hgiven hsound
    | timeNotText => exact .useless (by simp [hsense, hread]) hgiven hsound
    | unfollowed => exact absurd hread hfollowed
    | _ => exact .senseless _ ⟨s, _, rfl, hs, hread, nofun, nofun, nofun⟩

theorem comes_of_not_text (hv : ∀ s, v ≠ .text s) : Comes v (ofSource? v) := by
  have hsense : ¬IsSenseless v := fun ⟨s, _, h, _⟩ => hv s h
  have hsource : ofSource? v = if v.isFilled then (ofValue? v).mapError .noText else .ok none := by
    unfold ofSource?
    split
    · exact absurd rfl (hv _)
    · rfl
  rw [hsource]
  split_ifs with hfilled
  · exact comes_of_says hsense fun es => says_iff hv
  · -- an empty map says a declaration without fields
    have hnil : ∀ es, Says v es → es = [] := fun es h => by
      obtain ⟨id, rfl⟩ := (says_iff hv).1 h
      simpa [Value.isFilled] using hfilled
    refine .useless hsense ?_ ?_
    · rintro ⟨es, h, hwithheld⟩
      exact not_withholds_nil (hnil es h ▸ hwithheld)
    · rintro ⟨es, h, hsound⟩
      exact not_isSound_nil (hnil es h ▸ hsound)

/-- **What becomes of a value that may be a declaration.** -/
theorem comes_ofSource? (hfollowed : IsFollowed v) : Comes v (ofSource? v) := by
  by_cases h : ∃ s, v = .text s
  · obtain ⟨s, rfl⟩ := h
    exact comes_of_text (hfollowed s rfl)
  · exact comes_of_not_text (not_exists.1 h)

/-- What is read is followed. -/
theorem isFollowed_of_ofSource? {found : Option FunctionSpec} (h : ofSource? v = .ok found) :
    IsFollowed v := by
  rintro s rfl hdocument
  by_cases hs : s = ""
  · subst hs
    cases document_empty.symm.trans hdocument
  · rw [ofSource?, if_neg hs, hdocument] at h
    cases h

end FunctionSpec

end ScopedFn
