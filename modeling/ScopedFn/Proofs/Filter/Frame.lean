import ScopedFn.Proofs.Envelope.Objects
import ScopedFn.Proofs.Filter.Exit
import ScopedFn.Proofs.Scope.Containment

/-!
# What applying a function leaves alone

Applying a function edits objects twice: copies of resources lose annotations before they are sent,
and the output of the function gets a provenance. All these objects are new, so the collection and
the description of the function stay as they are, however the run ends.

* `Filter.Untouched` : edits leave a collection and a description as they are;
* `Filter.Shares` : how a collection is divided, and what the function made of its part;
* `Filter.apply_frame` : what is edited in a run, and what becomes of the output and of the
  resources out of scope.
-/

set_option autoImplicit false

namespace ScopedFn

/-- All identities in the resources have been taken from the supply. -/
def World.Knows (w : World) (rs : List Resource) : Prop := ∀ r ∈ rs, r.toValue.bound ≤ w.supply

/-- The description after edits of the objects that it holds. -/
def Descriptor.editAll (es : List Edit) (d : Descriptor) : Descriptor :=
  { d with config := d.config.map (·.editAll es) }

theorem Edit.Fresh.mono {lo lo' : ℕ} {e : Edit} (h : e.Fresh lo) (hle : lo' ≤ lo) : e.Fresh lo' where
  target := le_trans hle h.target
  change := by
    obtain ⟨target, _ | _⟩ := e
    · exact h.change.mono hle
    · trivial

/-- A process was started between two worlds and ended, and its output has been read. -/
def Emitted (child : Child) (w w' : World) (decoded : Envelope.Decoded) : Prop :=
  ∃ req status output supply, w'.calls = w.calls ++ [req] ∧ child req = .ended status output ∧
    Invoker.readOutput status output w.supply = .ok (decoded, supply)

theorem Emitted.of_calls_eq {child : Child} {w w₁ w' : World} {decoded : Envelope.Decoded}
    (h : Emitted child w w₁ decoded) (hcalls : w'.calls = w₁.calls) : Emitted child w w' decoded := by
  rwa [Emitted, hcalls]

namespace Invoker

variable {inv : Invoker} {child : Child} {d : Descriptor} {rs : List Resource} {w w' : World}
  {res : Except Failure Invocation}

/-- The resources in an output that is read are made of new objects. -/
theorem within_readOutput {status : Int} {output : List UInt8} {decoded : Envelope.Decoded}
    {supply supply' : Supply} (h : readOutput status output supply = .ok (decoded, supply')) :
    supply ≤ supply' ∧ ∀ r ∈ decoded.resources, r.toValue.Within supply supply' := by
  unfold readOutput at h
  split at h
  · cases h
  · exact Envelope.within_decode h

/-- A call edits new objects only. -/
theorem Calls.exists_edits (h : Calls inv child d rs w res w') :
    ∃ sent, w'.edits = w.edits ++ sent ∧ ∀ e ∈ sent, e.Fresh w.supply := by
  have hpack : ∀ e ∈ (inv.package d rs w.supply).edits, e.Fresh w.supply := fun e he =>
    (Envelope.fresh_pack _ _ _ _ e he).mono (le_max_left _ _)
  cases h with
  | noCommand => exact ⟨[], (List.append_nil _).symm, fun e he => absurd he List.not_mem_nil⟩
  | noPayload | refused | unreadable | answered => exact ⟨_, rfl, hpack⟩

theorem Calls.emitted {i : Invocation} (h : Calls inv child d rs w (.ok i) w') :
    ∃ decoded, Emitted child w w' decoded ∧ i.resources = decoded.resources ∧
      w.supply ≤ w'.supply ∧ ∀ r ∈ i.resources, r.toValue.Within w.supply w'.supply := by
  cases h with
  | answered hcommand hpayload hchild hread =>
    obtain ⟨hle, hrs⟩ := within_readOutput hread
    exact ⟨_, ⟨_, _, _, _, rfl, hchild, hread⟩, rfl, hle, hrs⟩

theorem Calls.notExit {failure : Failure} (h : Calls inv child d rs w (.error failure) w') :
    failure.NotExit := by
  cases h with
  | noCommand | refused => exact fun e heq => by simp at heq
  | noPayload hcommand hpayload => exact Envelope.neverExit_encode _ _ hpayload
  | unreadable hcommand hpayload hchild hread => exact neverExit_readOutput _ _ _ _ hread

end Invoker

namespace Filter

variable {inv : Invoker} {child : Child} {d : Descriptor} {rs : List Resource} {w w' : World}

/-- Edits leave a collection and the description of a function as they are. -/
structure Untouched (d : Descriptor) (rs : List Resource) (es : List Edit) : Prop where
  /-- The resources are the same. -/
  resources : ∀ r ∈ rs, r.editAll es = r
  /-- So is the description, with its configuration. -/
  descriptor : d.editAll es = d

theorem untouched_of_fresh {es : List Edit} (hknown : w.Knows (d.config.toList ++ rs))
    (hes : ∀ e ∈ es, e.Fresh w.supply) : Untouched d rs es := by
  obtain ⟨hconfig, hrs⟩ := List.forall_mem_append.1 hknown
  refine ⟨fun r hr => Resource.editAll_eq_self (hrs r hr) hes, ?_⟩
  rw [Descriptor.editAll]
  cases hc : d.config with
  | none => rw [Option.map_none, ← hc]
  | some config =>
    rw [Option.map_some, Resource.editAll_eq_self (hconfig config (by simp [hc])) hes, ← hc]

/-- How a run divides a collection into what the function gets and what passes by, and what the
function emits. -/
structure Shares (child : Child) (d : Descriptor) (rs : List Resource) (w w' : World)
    (s : Scope.Split) (decoded : Envelope.Decoded) : Prop where
  /-- The collection is divided by the scope of the function. -/
  divides : ∃ scope, Divides d rs scope s
  /-- What passes by keeps its order. -/
  order : s.outside.Sublist rs
  /-- Every resource is on one side, once. -/
  once : (s.inside ++ s.outside).Perm rs
  /-- The function was called, and its output read. -/
  emitted : Emitted child w w' decoded

theorem Divides.shares {scope : Path} {s : Scope.Split} {decoded : Envelope.Decoded}
    (h : Divides d rs scope s) (hemitted : Emitted child w w' decoded) :
    Shares child d rs w w' s decoded :=
  ⟨⟨scope, h⟩, Scope.outside_sublist h.split_eq, Scope.perm_of_split h.split_eq, hemitted⟩

/-- What a run makes of a collection: the output of the function with the given edits, or exactly as
it was emitted, and behind it what passes by. -/
structure Accounts (child : Child) (d : Descriptor) (rs : List Resource) (w w' : World)
    (placed : List Edit) (res : Except Failure Filtered) : Prop where
  /-- The collection that is returned. -/
  returned : ∀ f, res = .ok f → ∃ s decoded, Shares child d rs w w' s decoded ∧
    f.resources = decoded.resources.map (·.editAll placed) ++ s.outside
  /-- The resources that the failure of the function holds. -/
  failed : ∀ e, res = .error (.fault (.exit e)) → ∃ s decoded, Shares child d rs w w' s decoded ∧
    placed = [] ∧ e.resources = decoded.resources ++ s.outside

theorem accounts_of_notExit {failure : Failure} {placed : List Edit} (h : failure.NotExit) :
    Accounts child d rs w w' placed (.error failure) :=
  ⟨nofun, fun e heq => absurd (Except.error.inj heq) (h e)⟩

/-- What gets a provenance has been read since the start, so only new objects are edited. -/
theorem fresh_placed {scope : Path} {i : Invocation} {w₁ w₂ : World} {kept : Except Failure Unit}
    {functionPath : Option String} {a : Provenance.Assignment}
    (hcall : Invoker.Calls inv child d rs w (.ok i) w₁)
    (hkeep : Keeps d (w₁.record (callRecord d i)) i.results kept w₂)
    (hassign : Provenance.assign scope functionPath i.resources w₂.supply = .ok a) :
    ∀ e ∈ a.edits, e.Fresh w.supply := by
  obtain ⟨decoded, -, -, hle, hwithin⟩ := hcall.emitted
  have hsupply : w.supply ≤ w₂.supply := le_of_le_of_eq hle hkeep.supply_eq.symm
  exact (Provenance.fresh_assign hassign (fun r hr => (hwithin r hr).fresh) hsupply).edits

theorem accounts_exitFault {scope : Path} {s : Scope.Split} {i : Invocation}
    {decoded : Envelope.Decoded} (hdiv : Divides d rs scope s) (hemitted : Emitted child w w' decoded)
    (hresources : i.resources = decoded.resources) :
    Accounts child d rs w w' [] (.error (.fault (.exit (exitFault d i s.outside)))) := by
  refine ⟨nofun, fun e heq => ⟨s, decoded, hdiv.shares hemitted, rfl, ?_⟩⟩
  obtain rfl := Fault.exit.inj (Failure.fault.inj (Except.error.inj heq))
  rw [← hresources]
  rfl

theorem accounts_finish {scope : Path} {s : Scope.Split} {i : Invocation}
    {decoded : Envelope.Decoded} {functionPath : Option String} {supply : Supply}
    {a : Provenance.Assignment} (hdiv : Divides d rs scope s) (hemitted : Emitted child w w' decoded)
    (hresources : i.resources = decoded.resources)
    (hassign : Provenance.assign scope functionPath i.resources supply = .ok a)
    (exit : Option ExitFault) :
    Accounts child d rs w w' a.edits (.ok (finish scope s.outside i exit a)) := by
  refine ⟨fun f heq => ⟨s, decoded, hdiv.shares hemitted, ?_⟩, nofun⟩
  obtain rfl := Except.ok.inj heq
  rw [← hresources, ← Provenance.assign_resources hassign]
  rfl

variable {res : Except Failure Filtered}

/-- **No loss and no tampering.** However a run ends, its edits leave the collection and the
description alone; what it gives is the whole output of the function, and all that passed by. -/
theorem apply_frame (hknown : w.Knows (d.config.toList ++ rs))
    (h : (apply inv child d rs).exec w = (res, w')) :
    ∃ sent placed, w'.edits = w.edits ++ (sent ++ placed) ∧ Untouched d rs (sent ++ placed) ∧
      Accounts child d rs w w' placed res := by
  have hcourse := exec_apply.1 h
  -- where neither a collection nor the failure of a function results, only copies are edited
  have hother : ∀ {failure : Failure}, failure.NotExit → res = .error failure →
      (∃ sent, w'.edits = w.edits ++ sent ∧ ∀ e ∈ sent, e.Fresh w.supply) →
      ∃ sent placed, w'.edits = w.edits ++ (sent ++ placed) ∧ Untouched d rs (sent ++ placed) ∧
        Accounts child d rs w w' placed res := by
    rintro failure hnot rfl ⟨sent, hedits, hsent⟩
    refine ⟨sent, [], ?_, ?_, accounts_of_notExit hnot⟩
    · rw [List.append_nil, hedits]
    · rw [List.append_nil]
      exact untouched_of_fresh hknown hsent
  cases hcourse with
  | noScope | noSplit =>
    exact hother (notExit_failure (fun _ _ => by simp) _) rfl ⟨[], (List.append_nil _).symm, nofun⟩
  | notCalled hdiv hcall => exact hother hcall.notExit rfl hcall.exists_edits
  | unstored hdiv hcall hkeep =>
    refine hother hkeep.not_storable.1 rfl ?_
    rw [hkeep.edits_eq]
    exact hcall.exists_edits
  | unplaced hdiv hcall hkeep hjudge hpath hassign =>
    refine hother (notExit_failure (fun _ _ => by simp) _) rfl ?_
    rw [judged_edits, hkeep.edits_eq]
    exact hcall.exists_edits
  | @failed scope s i w₁ w₂ hdiv hcall hkeep hfailed hdefer =>
    obtain ⟨sent, hedits, hsent⟩ := hcall.exists_edits
    obtain ⟨decoded, hemitted, hresources, -⟩ := hcall.emitted
    refine ⟨sent, [], ?_, ?_,
      accounts_exitFault hdiv (hemitted.of_calls_eq hkeep.calls_eq) hresources⟩
    · rw [List.append_nil, World.record_edits, hkeep.edits_eq]
      exact hedits
    · rw [List.append_nil]
      exact untouched_of_fresh hknown hsent
  | @returned scope s i w₁ w₂ functionPath a hdiv hcall hkeep hjudge hpath hassign =>
    obtain ⟨sent, hedits, hsent⟩ := hcall.exists_edits
    obtain ⟨decoded, hemitted, hresources, -⟩ := hcall.emitted
    have hplaced := fresh_placed hcall hkeep hassign
    have hemitted' : Emitted child w
        ({ judged d i s.outside w₂ with supply := a.supply }.edit a.edits) decoded :=
      hemitted.of_calls_eq ((judged_calls d i s.outside w₂).trans hkeep.calls_eq)
    refine ⟨sent, a.edits, ?_, ?_, accounts_finish hdiv hemitted' hresources hassign _⟩
    · rw [World.edit_edits, ← List.append_assoc]
      congr 1
      rw [judged_edits, hkeep.edits_eq]
      exact hedits
    · exact untouched_of_fresh hknown (List.forall_mem_append.2 ⟨hsent, hplaced⟩)

/-- A function that is kept below `apps`. -/
def belowApps : Descriptor :=
  { executable false with config := some (Scope.located 1 "apps/fn.yaml") }

/-- A resource in the scope of that function, and one out of it. -/
def twoPlaces : List Resource := [Scope.located 4 "apps/a.yaml", Scope.located 7 "web/b.yaml"]

/-- The function writes a new resource and fails. -/
theorem frame_of_twoPlaces :
    { blank with supply := 10 }.Knows (belowApps.config.toList ++ twoPlaces) ∧
      ∃ res w', (apply usual (fun _ => .ended 1 [123, 125]) belowApps twoPlaces).exec
          { blank with supply := 10 } = (res, w') ∧
        ∃ sent placed, w'.edits = sent ++ placed ∧ Untouched belowApps twoPlaces (sent ++ placed) ∧
          Accounts (fun _ => .ended 1 [123, 125]) belowApps twoPlaces { blank with supply := 10 } w'
            placed res := by
  have hknown : { blank with supply := 10 }.Knows (belowApps.config.toList ++ twoPlaces) := by
    simp only [World.Knows, belowApps, twoPlaces, Option.toList_some, List.singleton_append,
      List.forall_mem_cons]
    decide
  obtain ⟨res, w', hcourse⟩ := exists_course usual (fun _ => .ended 1 [123, 125]) belowApps twoPlaces
    { blank with supply := 10 }
  have happly := exec_apply.2 hcourse
  exact ⟨hknown, res, w', happly, apply_frame hknown happly⟩

/-- What a run gives is made of identities that have been taken from the supply, so that another
run can go on with it. -/
theorem knows_apply {f : Filtered} (hknown : w.Knows (d.config.toList ++ rs))
    (h : (apply inv child d rs).exec w = (.ok f, w')) :
    w.supply ≤ w'.supply ∧ w'.Knows (d.config.toList ++ f.resources) := by
  have hcourse := exec_apply.1 h
  cases hcourse with
  | @returned scope s i w₁ w₂ functionPath a hdiv hcall hkeep hjudge hpath hassign =>
    obtain ⟨decoded, -, -, hle, hwithin⟩ := hcall.emitted
    have hsupply : w₂.supply = w₁.supply := hkeep.supply_eq
    have hbounded := Provenance.bounded_assign hassign fun r hr =>
      le_of_le_of_eq (hwithin r hr).bound hsupply.symm
    have hle' : w.supply ≤ a.supply := le_trans hle (le_of_eq_of_le hsupply.symm hbounded.supply)
    obtain ⟨hconfig, hrs⟩ := List.forall_mem_append.1 hknown
    refine ⟨hle', List.forall_mem_append.2 ⟨fun r hr => le_trans (hconfig r hr) hle', ?_⟩⟩
    refine List.forall_mem_append.2 ⟨hbounded.resources, fun r hr => ?_⟩
    exact le_trans (hrs r ((Scope.outside_sublist hdiv.split_eq).subset hr)) hle'

end Filter

end ScopedFn
