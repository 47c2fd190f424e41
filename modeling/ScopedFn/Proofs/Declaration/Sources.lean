import ScopedFn.Descriptor
import ScopedFn.Proofs.Declaration

/-!
# Where a function is declared

A function is looked for in five places, the first usable one counting, and a place that is of no
use hides none of those behind it. What is found runs something, and so can be described; where
nothing is found there is no description. All this is so unless the search is cut short by something
that is given as no text.

* `isRegistryVersion_iff` : which schema versions name images;
* `Finds`, `functionSpec?_eq_ok_iff` : the first usable place counts;
* `FoundInSources` : how functions are to be found;
* `foundInSources_iff` : the resources for which they are, and that descriptions agree with it.
-/

set_option autoImplicit false

namespace ScopedFn

/-! ### Images -/

/-- The text before the first slash is the host of an image registry, or of a part of one. -/
def IsHosted (apiVersion : String) : Prop :=
  ∃ host, '/' ∉ host ∧ (apiVersion.toList = host ∨ ∃ rest, apiVersion.toList = host ++ '/' :: rest) ∧
    ∃ registry ∈ registryHosts, host = registry.toList ∨ ('.' :: registry.toList) <:+ host

/-- The text before the first slash. -/
theorem eq_takeWhile_iff {host cs : List Char} : host = cs.takeWhile (· != '/') ↔
    '/' ∉ host ∧ (cs = host ∨ ∃ rest, cs = host ++ '/' :: rest) := by
  induction cs generalizing host with
  | nil => cases host <;> simp
  | cons c cs ih =>
    by_cases hc : c = '/'
    · subst hc
      cases host <;> simp +contextual [eq_comm]
    · cases host with
      | nil => simp [hc]
      | cons h host =>
        rw [List.takeWhile_cons, if_pos (by simpa using hc), List.cons.injEq, ih]
        simp only [List.cons_append, List.cons.injEq, List.mem_cons, not_or]
        constructor
        · rintro ⟨rfl, hslash, hrest⟩
          exact ⟨⟨Ne.symm hc, hslash⟩, hrest.imp (⟨rfl, ·⟩) fun ⟨rest, hrest⟩ => ⟨rest, rfl, hrest⟩⟩
        · rintro ⟨⟨-, hslash⟩, ⟨rfl, hrest⟩ | ⟨rest, rfl, hrest⟩⟩
          · exact ⟨rfl, hslash, .inl hrest⟩
          · exact ⟨rfl, hslash, .inr ⟨rest, hrest⟩⟩

theorem isRegistryVersion_iff {apiVersion : String} :
    isRegistryVersion apiVersion = true ↔ IsHosted apiVersion := by
  unfold isRegistryVersion IsHosted
  simp only [← and_assoc, ← eq_takeWhile_iff]
  simp [List.isSuffixOf_iff_suffix]

/-- A place where a function may be declared. -/
inductive Source where
  /-- A declaration. -/
  | declaration (v : Value)
  /-- The annotation that names an image, if there is one. -/
  | image (name? : Option String)
  /-- The schema version. -/
  | version (apiVersion : String)

/-- The spec that is found at a place. -/
inductive Source.Gives : Source → FunctionSpec → Prop where
  /-- A declaration gives the spec that is read from it. -/
  | declaration {v : Value} {spec : FunctionSpec} (h : FunctionSpec.ofSource? v = .ok (some spec)) :
    Gives (.declaration v) spec
  /-- An annotation that is not empty gives the image. -/
  | image {name : String} (h : name ≠ "") : Gives (.image (some name)) (.ofImage name)
  /-- A schema version that is hosted in a registry is an image. -/
  | version {apiVersion : String} (h : IsHosted apiVersion) :
    Gives (.version apiVersion) (.ofImage apiVersion)

/-- The place is of use: a declaration that is sound, an image that is named, or a schema version that
is hosted in a registry. -/
def Source.IsUsable : Source → Prop
  | declaration v => FunctionSpec.SaysSound v
  | image name? => ∃ name, name? = some name ∧ name ≠ ""
  | version apiVersion => IsHosted apiVersion

/-- The places where the function of a resource may be declared, by precedence. -/
def sources (r : Resource) (m : Meta) : List Source :=
  (candidates r m).map .declaration ++ [.image (m.annotations.get? imageKey), .version m.apiVersion]

/-- Looking through places in their order: what is of no use is passed over, and the first place that
gives a spec ends the search. -/
inductive Finds : List Source → Option FunctionSpec → Prop where
  /-- There is no place left. -/
  | nil : Finds [] none
  /-- The place gives a spec. -/
  | here {s : Source} {ss : List Source} {spec : FunctionSpec} (hs : s.IsUsable) (h : s.Gives spec) :
    Finds (s :: ss) (some spec)
  /-- The place is of no use. -/
  | skip {s : Source} {ss : List Source} {spec? : Option FunctionSpec} (hs : ¬s.IsUsable)
    (h : Finds ss spec?) : Finds (s :: ss) spec?

variable {s : Source} {ss ts : List Source} {spec spec' : FunctionSpec}
  {spec? spec?' : Option FunctionSpec} {r : Resource} {m : Meta}

theorem Source.Gives.unique (h : s.Gives spec) (h' : s.Gives spec') : spec = spec' := by
  cases h with
  | declaration h =>
    cases h' with
    | declaration h' => exact Option.some.inj (Except.ok.inj (h.symm.trans h'))
  | image h =>
    cases h' with
    | image h' => rfl
  | version h =>
    cases h' with
    | version h' => rfl

theorem Finds.unique (h : Finds ss spec?) (h' : Finds ss spec?') : spec? = spec?' := by
  induction h with
  | nil =>
    cases h' with
    | nil => rfl
  | here hs h =>
    cases h' with
    | here hs' h' => exact congrArg some (h.unique h')
    | skip hs' _ => exact absurd hs hs'
  | skip hs _ ih =>
    cases h' with
    | here hs' _ => exact absurd hs' hs
    | skip _ h' => exact ih h'

/-- Nothing is found iff no place is usable. -/
theorem finds_none_iff : Finds ss none ↔ ∀ s ∈ ss, ¬s.IsUsable := by
  induction ss with
  | nil => exact iff_of_true .nil nofun
  | cons s ss ih =>
    rw [List.forall_mem_cons, ← ih]
    exact ⟨fun | .skip hs h => ⟨hs, h⟩, fun ⟨hs, h⟩ => .skip hs h⟩

/-- A spec is found iff the first usable place gives it. -/
theorem finds_some_iff : Finds ss (some spec) ↔
    ∃ before s after, ss = before ++ s :: after ∧ (∀ t ∈ before, ¬t.IsUsable) ∧ s.IsUsable ∧
      s.Gives spec := by
  constructor
  · intro h
    generalize hspec : some spec = spec? at h
    induction h with
    | nil => cases hspec
    | @here s ss spec hs h =>
      obtain rfl := Option.some.inj hspec
      exact ⟨[], s, ss, rfl, nofun, hs, h⟩
    | @skip s ss spec? hs h ih =>
      obtain ⟨before, t, after, rfl, hbefore, ht⟩ := ih hspec
      exact ⟨s :: before, t, after, rfl, List.forall_mem_cons.2 ⟨hs, hbefore⟩, ht⟩
  · rintro ⟨before, s, after, rfl, hbefore, hs, h⟩
    induction before with
    | nil => exact .here hs h
    | cons t before ih =>
      obtain ⟨ht, hbefore⟩ := List.forall_mem_cons.1 hbefore
      exact .skip ht (ih hbefore)

/-- One search after another. -/
theorem Finds.append (h : Finds ss spec?) (h' : Finds ts spec?') :
    Finds (ss ++ ts) (spec?.or spec?') := by
  induction h with
  | nil => simpa using h'
  | here hs h => exact .here hs h
  | skip hs _ ih => exact .skip hs ih

/-! ### The search -/

theorem finds_of_firstOf? {vs : List Value} (h : FunctionSpec.firstOf? vs = .ok spec?) :
    Finds (vs.map .declaration) spec? := by
  induction vs with
  | nil =>
    obtain rfl := Except.ok.inj h
    exact .nil
  | cons v vs ih =>
    rw [FunctionSpec.firstOf?] at h
    obtain ⟨found, hv, h⟩ := Result.ok_of_bind h
    have husable : (∃ spec, FunctionSpec.ofSource? v = .ok (some spec)) ↔
        (Source.declaration v).IsUsable := FunctionSpec.exists_ofSource?_iff hv
    cases found with
    | some spec =>
      obtain rfl := Except.ok.inj h
      exact .here (husable.1 ⟨spec, hv⟩) (.declaration hv)
    | none => exact .skip (mt husable.2 (by simp [hv])) (ih h)

theorem finds_versionSpec? : Finds [.version m.apiVersion] (imageSpec?.versionSpec? m) := by
  unfold imageSpec?.versionSpec?
  split_ifs with h
  · exact .here (isRegistryVersion_iff.1 h) (.version (isRegistryVersion_iff.1 h))
  · exact .skip (mt isRegistryVersion_iff.2 h) .nil

theorem finds_imageSpec? :
    Finds [.image (m.annotations.get? imageKey), .version m.apiVersion] (imageSpec? m) := by
  unfold imageSpec?
  split
  · next image hget =>
    rw [hget]
    split_ifs with himage
    · refine .skip ?_ finds_versionSpec?
      rintro ⟨name, hname, hne⟩
      exact hne (Option.some.inj hname ▸ himage)
    · exact .here ⟨image, rfl, himage⟩ (.image himage)
  · next hget =>
    rw [hget]
    exact .skip (fun ⟨_, hname, _⟩ => nomatch hname) finds_versionSpec?

/-- What is found for a resource is found by looking through its places. -/
theorem finds_of_functionSpec? (hm : r.getMeta = .ok m) (h : functionSpec? r = .ok spec?) :
    Finds (sources r m) spec? := by
  rw [functionSpec?_eq hm] at h
  obtain ⟨found, hfound, rfl⟩ := Result.ok_of_map h
  exact (finds_of_firstOf? hfound).append finds_imageSpec?

/-- **The first usable place counts.** -/
theorem functionSpec?_eq_ok_iff (htold : ∃ spec?, functionSpec? r = .ok spec?)
    (hm : r.getMeta = .ok m) : functionSpec? r = .ok spec? ↔ Finds (sources r m) spec? := by
  constructor
  · exact finds_of_functionSpec? hm
  · intro h
    obtain ⟨spec?', hspec⟩ := htold
    rw [hspec, h.unique (finds_of_functionSpec? hm hspec)]

/-! ### What is found can be run -/

theorem Source.Gives.isExecutable (h : s.Gives spec) : spec.isExecutable = true := by
  cases h with
  | declaration h =>
    have hcomes := FunctionSpec.comes_ofSource? (FunctionSpec.isFollowed_of_ofSource? h)
    rw [h] at hcomes
    cases hcomes with
    | sound _ _ hruns => exact hruns
  | image h => simp [FunctionSpec.isExecutable, FunctionSpec.ofImage, h]
  | @version apiVersion h =>
    have hne : apiVersion ≠ "" := by
      rintro rfl
      exact absurd (isRegistryVersion_iff.2 h) (by decide)
    simp [FunctionSpec.isExecutable, FunctionSpec.ofImage, hne]

/-- Where a function is found the metadata can be read. -/
theorem exists_getMeta_of_functionSpec? (h : functionSpec? r = .ok (some spec)) :
    ∃ m, r.getMeta = .ok m := by
  cases hm : r.getMeta with
  | error cause =>
    rw [functionSpec?, hm] at h
    cases cause <;> cases h
  | ok m => exact ⟨m, rfl⟩

theorem isExecutable_of_functionSpec? (h : functionSpec? r = .ok (some spec)) :
    spec.isExecutable = true := by
  obtain ⟨m, hm⟩ := exists_getMeta_of_functionSpec? h
  obtain ⟨before, s, after, -, -, -, hs⟩ := finds_some_iff.1 (finds_of_functionSpec? hm h)
  exact hs.isExecutable

/-- A resource that declares a function can be described, and no other. -/
theorem declaresFunction_iff :
    declaresFunction r = .ok true ↔ ∃ d, Descriptor.ofResource r = .ok d := by
  unfold declaresFunction Descriptor.ofResource
  rcases functionSpec? r with (fault | cause) | - | ⟨- | container, path⟩
  · simp [Except.map]
  · simp [Except.map]
  · refine iff_of_false (by simp [Except.map]) ?_
    rintro ⟨d, hd⟩
    obtain ⟨kind, -, hd⟩ := Result.ok_of_bind hd
    obtain ⟨version, -, hd⟩ := Result.ok_of_bind hd
    cases hd
  · simp [Except.map]
  · simp [Except.map]

theorem exists_runtime_iff {d : Descriptor} :
    (∃ runtime, d.runtime = .ok runtime) ↔ d.image ≠ "" ∨ d.execPath ≠ "" := by
  unfold Descriptor.runtime
  split_ifs <;> simp_all

/-- What can be described has been found. -/
theorem exists_functionSpec?_of_ofResource {d : Descriptor} (h : Descriptor.ofResource r = .ok d) :
    ∃ spec, functionSpec? r = .ok (some spec) := by
  have hdeclares := declaresFunction_iff.2 ⟨d, h⟩
  obtain ⟨spec?, hspec, hsome⟩ := Result.ok_of_map hdeclares
  obtain ⟨spec, rfl⟩ := Option.isSome_iff_exists.1 hsome
  exact ⟨spec, hspec⟩

/-- What a description tells to run can be run. -/
theorem exists_runtime {d : Descriptor} (h : Descriptor.ofResource r = .ok d) :
    ∃ runtime, d.runtime = .ok runtime := by
  obtain ⟨spec, hspec⟩ := exists_functionSpec?_of_ofResource h
  have hruns := isExecutable_of_functionSpec? hspec
  rw [Descriptor.ofResource, hspec] at h
  rcases spec with ⟨- | container, path⟩ <;> obtain rfl := Except.ok.inj h
  · exact exists_runtime_iff.2 (.inr (by simpa [FunctionSpec.isExecutable] using hruns))
  · exact exists_runtime_iff.2 (by simpa [FunctionSpec.isExecutable] using hruns)

/-- How the function of a resource is to be found. -/
structure FoundInSources (r : Resource) : Prop where
  /-- It is told whether the resource declares one. -/
  told : ∃ spec?, functionSpec? r = .ok spec?
  /-- It does not if its metadata cannot be read. -/
  unreadable : ∀ cause, r.getMeta = .error cause → functionSpec? r = .ok none
  /-- Else the first usable place counts, whatever stands before it. -/
  first : ∀ m, r.getMeta = .ok m → ∀ spec, functionSpec? r = .ok (some spec) ↔
    ∃ before s after, sources r m = before ++ s :: after ∧ (∀ t ∈ before, ¬t.IsUsable) ∧
      s.IsUsable ∧ s.Gives spec
  /-- Nothing is found iff no place is usable. -/
  nothing : ∀ m, r.getMeta = .ok m → (functionSpec? r = .ok none ↔ ∀ s ∈ sources r m, ¬s.IsUsable)
  /-- What is found runs something. -/
  executable : ∀ spec, functionSpec? r = .ok (some spec) → spec.isExecutable = true
  /-- The resource declares a function iff it can be described. -/
  described : declaresFunction r = .ok true ↔ ∃ d, Descriptor.ofResource r = .ok d
  /-- What is described can be run. -/
  runs : ∀ d, Descriptor.ofResource r = .ok d → ∃ runtime, d.runtime = .ok runtime

/-- **Where a function is declared.** Let it be told what the declarations of a resource say, and let
none of them be a text that is sound and senseless. Then the first usable place counts, unless the
search is cut short: by metadata with a part that is given as no text, or by a declaration with a
field that is, before a sound one is found. -/
theorem foundInSources_iff (r : Resource) (hfollowed : AreFollowed r)
    (hloader : ∀ m, r.getMeta = .ok m → ∀ v ∈ candidates r m, ¬FunctionSpec.IsSenseless v) :
    FoundInSources r ↔ (∀ cause, r.getMeta ≠ .error (.noText cause)) ∧
      ∀ m, r.getMeta = .ok m → ∀ before v after, candidates r m = before ++ v :: after →
        FunctionSpec.SaysWithheld v → ∃ w ∈ before, FunctionSpec.SaysSound w := by
  have htold : (∃ spec?, functionSpec? r = .ok spec?) ↔
      (∀ cause, r.getMeta ≠ .error (.noText cause)) ∧
        ∀ m, r.getMeta = .ok m → ∀ before v after, candidates r m = before ++ v :: after →
          FunctionSpec.SaysWithheld v → ∃ w ∈ before, FunctionSpec.SaysSound w := by
    rw [exists_functionSpec?_iff hfollowed]
    refine ⟨fun h => ⟨h.given, fun m hm before v after hvs hv => h.clear m hm _ _ _ hvs (.inr hv)⟩,
      fun ⟨hgiven, hclear⟩ => ⟨hgiven, fun m hm before v after hvs hv => ?_⟩⟩
    exact hclear m hm _ _ _ hvs (hv.resolve_left (hloader m hm v (by simp [hvs])))
  rw [← htold]
  refine ⟨FoundInSources.told, fun h => ?_⟩
  refine ⟨h, fun cause hcause => ?_, fun m hm spec => ?_, fun m hm => ?_,
    fun spec => isExecutable_of_functionSpec?, declaresFunction_iff, fun d => exists_runtime⟩
  · cases cause with
    | fault fault => rw [functionSpec?, hcause]
    | noText cause => exact absurd hcause ((htold.1 h).1 cause)
  · rw [functionSpec?_eq_ok_iff h hm, finds_some_iff]
  · rw [functionSpec?_eq_ok_iff h hm, finds_none_iff]

/-- An image with mounts that are none, in the place of a declaration. -/
def badMounts : String := "container: {image: fn, mounts: [data]}"

/-- A resource with such a declaration in an annotation, and a sound one in its metadata. -/
def declaringTwice : Resource :=
  ⟨1, [(.text "metadata", .map 2 [
    (.text "annotations", .map 3 [(.text "config.kubernetes.io/function", .text badMounts)]),
    (.text "configFn", .map 4 [(.text "exec", .map 5 [(.text "path", .text "/bin/fn")])])])]⟩

/-- Mounts that cannot be read make an image useless, and what follows counts. -/
theorem foundInSources_badMounts :
    FunctionSpec.ofSource? (.text badMounts) = .ok none ∧
      functionSpec? declaringTwice = .ok (some ⟨none, "/bin/fn"⟩) ∧
      FoundInSources declaringTwice := by
  have hread : FunctionSpec.ofSource? (.text badMounts) = .ok none := by decide +kernel
  have hplaces : declaringTwice.getMeta.toOption.map (candidates declaringTwice) =
      some [.text badMounts, .null,
        .map 4 [(.text "exec", .map 5 [(.text "path", .text "/bin/fn")])]] := by decide +kernel
  have hreads : ∀ m, declaringTwice.getMeta = .ok m →
      ∀ v ∈ candidates declaringTwice m, ∃ found, FunctionSpec.ofSource? v = .ok found := by
    intro m hm v hv
    rw [hm] at hplaces
    rw [Option.some.inj hplaces] at hv
    simp only [List.mem_cons, List.not_mem_nil, or_false] at hv
    rcases hv with rfl | rfl | rfl
    · exact ⟨none, hread⟩
    · exact ⟨none, rfl⟩
    · exact ⟨some ⟨none, "/bin/fn"⟩, rfl⟩
  have hfollowed : AreFollowed declaringTwice := fun m hm v hv =>
    FunctionSpec.isFollowed_of_ofSource? (hreads m hm v hv).choose_spec
  have hgiven : ∀ m, declaringTwice.getMeta = .ok m →
      ∀ v ∈ candidates declaringTwice m, ¬FunctionSpec.Obstructs v := by
    intro m hm v hv hobstructs
    obtain ⟨found, hfound⟩ := hreads m hm v hv
    obtain ⟨e, he⟩ := (FunctionSpec.ofSource?_eq_error_iff (hfollowed m hm v hv)).2 hobstructs
    cases hfound.symm.trans he
  refine ⟨hread, by decide +kernel, (foundInSources_iff declaringTwice hfollowed ?_).2 ⟨?_, ?_⟩⟩
  · exact fun m hm v hv h => hgiven m hm v hv (.inl h)
  · intro cause h
    rw [h] at hplaces
    cases hplaces
  · intro m hm before v after hvs hv
    exact absurd (.inr hv) (hgiven m hm v (by simp [hvs]))

/-- A resource that declares a function with a number of too many digits as its image. -/
def longImage : Resource :=
  ⟨1, [(.text "metadata", .map 2 [
    (.text "configFn", .map 3 [(.text "container", .map 4 [(.text "image", .int (Int.pow 16 3600))])])])]⟩

/-- The image of such a function is not found, nor is it told that there is none. -/
theorem not_foundInSources_longImage :
    functionSpec? longImage = .error (.noText .numberTooLong) ∧ ¬FoundInSources longImage := by
  have hspec : functionSpec? longImage = .error (.noText .numberTooLong) := by decide +kernel
  refine ⟨hspec, fun h => ?_⟩
  obtain ⟨spec?, htold⟩ := h.told
  cases hspec.symm.trans htold

end ScopedFn
