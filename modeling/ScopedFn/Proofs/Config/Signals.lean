import ScopedFn.Proofs.Config.Merge
import ScopedFn.Proofs.Config.Settings
import ScopedFn.Proofs.Environment
import ScopedFn.Proofs.Json.Atom
import ScopedFn.Proofs.Value.Display

/-!
# Configured signals

The signals of a configuration are laid over the fixed ones twice: when the settings are read, key
by key, and when a process gets its variables, name by name. A key of any kind has a name, and
several keys may have one name, but of the keys that a text can be made of, none other than the text
itself has the name of a fixed signal. So the first time makes no difference.

* `MapEntries.putAll_eq` : entries with different keys that are laid over a map;
* `Atom.eq_text_of_display` : what is shown in capital letters is a text;
* `Config.isWord_of_ofConfig` : the keys of the signals of a configuration that is accepted;
* `Config.last?_signalTexts`, `Config.newNames_signalTexts` : the signals of the settings are those of
  the configuration, besides the fixed ones;
* `Config.signals_of_ofConfig` : which entries the signals of a configuration are.
-/

set_option autoImplicit false

namespace ScopedFn

namespace MapEntries

open Entries (find? has put putAll)

variable {es fs : MapEntries} {k : Atom}

theorem put_of_not_has (h : has Atom.same k es = false) (v : Value) :
    put Atom.same k v es = es ++ [(k, v)] := by
  unfold has at h
  induction es with
  | nil => rfl
  | cons e es ih =>
    rw [find?] at h
    split at h
    · cases h
    · next hne => rw [put, if_neg hne, ih h, List.cons_append]

theorem put_of_has (hes : es.Keyed) (h : has Atom.same k es = true) (v : Value) :
    put Atom.same k v es = es.map fun e => (e.1, if e.1.same k then v else e.2) := by
  unfold has at h
  induction es with
  | nil => cases h
  | cons e es ih =>
    obtain ⟨-, hnew, hes⟩ := keyed_cons.1 hes
    rw [find?] at h
    rw [put, List.map_cons]
    split at h
    · next hk =>
      -- no other key is the same
      have hother : ∀ f ∈ es, (f.1, if f.1.same k then v else f.2) = f := fun f hf => by
        have hne : f.1.same k = false := by
          rw [← Atom.same_congr hk]
          exact find?_eq_none_iff.1 hnew f hf
        rw [hne, if_neg Bool.false_ne_true]
      rw [if_pos hk, if_pos hk, List.map_congr_left hother, List.map_id']
    · next hne => rw [if_neg hne, if_neg hne, ih hes h]

/-- **Entries with different keys that are laid over a map**: keys that are there change their
values where they stand, and the others follow. -/
theorem putAll_eq (hes : es.Keyed) (hfs : fs.Keyed) : putAll Atom.same es fs =
    (es.map fun e => (e.1, (find? Atom.same e.1 fs).getD e.2)) ++
      fs.filter fun f => !has Atom.same f.1 es := by
  induction fs generalizing es with
  | nil => simp [putAll, find?]
  | cons f fs ih =>
    obtain ⟨k, v⟩ := f
    obtain ⟨hk, hnew, hfs'⟩ := keyed_cons.1 hfs
    have hothers : ∀ f ∈ fs, (!has Atom.same f.1 (put Atom.same k v es)) = !has Atom.same f.1 es :=
      fun f hf => by rw [has, has, Config.find?_put_of_mem hfs hf]
    have hstep : putAll Atom.same es ((k, v) :: fs) =
        putAll Atom.same (put Atom.same k v es) fs := rfl
    rw [hstep, ih (hes.put hk v) hfs', List.filter_congr hothers, List.filter_cons]
    cases hhas : has Atom.same k es with
    | true =>
      rw [put_of_has hes hhas, List.map_map, if_neg (by simp)]
      refine congrArg (· ++ _) (List.map_congr_left fun e he => Prod.ext rfl ?_)
      show (find? Atom.same e.1 fs).getD (if e.1.same k then v else e.2) =
        (find? Atom.same e.1 ((k, v) :: fs)).getD e.2
      rw [find?, Atom.same_comm k e.1]
      split_ifs with hsame
      · rw [find?_congr hsame, hnew]
        rfl
      · rfl
    | false =>
      rw [put_of_not_has hhas, List.map_append, List.append_assoc, if_pos (by simp)]
      refine congrArg₂ (· ++ ·) (List.map_congr_left fun e he => Prod.ext rfl ?_) ?_
      · have hne : ¬k.same e.1 = true := by
          intro hsame
          rw [has, Option.isSome_eq_false_iff, Option.isNone_iff_eq_none] at hhas
          have hdiff := find?_eq_none_iff.1 hhas e he
          rw [Atom.same_comm, hsame] at hdiff
          exact Bool.noConfusion hdiff
        rw [find?, if_neg hne]
      · rw [List.map_singleton, hnew]
        rfl

end MapEntries

/-! ### Names -/

namespace Atom

/-- A capital letter or an underscore. -/
def IsCapital (c : Char) : Prop := 'A' ≤ c ∧ c ≤ 'Z' ∨ c = '_'

instance : DecidablePred IsCapital := fun _ => inferInstanceAs (Decidable (_ ∨ _))

theorem not_isCapital_of_isDigit {c : Char} (h : c.isDigit = true) : ¬IsCapital c := by
  rintro (⟨hlow, -⟩ | rfl)
  · have hdigit : c ≤ '9' := of_decide_eq_true (Bool.and_eq_true_iff.1 h).2
    exact absurd (hlow.trans hdigit) (by decide)
  · exact absurd h (by decide)

/-- The text of a number has a character that is no capital letter. -/
theorem exists_not_isCapital_text (x : Binary64) :
    ∃ c ∈ (x.text displayLayout).toList, ¬IsCapital c := by
  cases hx : x.isNaN with
  | true =>
    rw [Binary64.text, hx, if_pos rfl]
    exact ⟨'n', by decide, by decide⟩
  | false =>
    have hinfinity : displayLayout.NamesInfinity := ⟨'i', ['n', 'f'], rfl, by decide, by decide⟩
    obtain ⟨c, hc, -⟩ := Binary64.exists_mark_text hinfinity hx
    refine ⟨c, hc, ?_⟩
    obtain (hdigit | hmark) | hname := Binary64.isNumeral_of_mem_text hx hc
    · exact not_isCapital_of_isDigit hdigit
    · have hmarks : ['.', 'e', '+', '-'].Forall (¬IsCapital ·) := by decide
      exact List.forall_iff_forall_mem.1 hmarks c hmark
    · have hnames : displayLayout.infinityText.toList.Forall (¬IsCapital ·) := by decide
      exact List.forall_iff_forall_mem.1 hnames c hname

/-- **What is shown in capital letters is a text**, if it can be written. -/
theorem eq_text_of_display {a : Atom} (hword : Json.IsWord a)
    (h : ∀ c ∈ a.display.toList, IsCapital c) : a = .text a.display := by
  by_contra hne
  have hno : ∃ c ∈ a.display.toList, ¬IsCapital c := by
    cases a with
    | null => exact ⟨'o', by decide, by decide⟩
    | bool b => cases b <;> exact ⟨'e', by decide, by decide⟩
    | int n =>
      obtain ⟨c, cs, hcs⟩ := List.exists_cons_of_ne_nil
        (List.ne_nil_of_length_pos (Nat.length_toDigits_pos (b := 10) (n := n.natAbs)))
      have hmem : c ∈ Nat.toDigits 10 n.natAbs := hcs ▸ List.mem_cons_self
      refine ⟨c, ?_, not_isCapital_of_isDigit (Binary64.areDigits_toDigits _ c hmem)⟩
      have hchars : (Atom.int n).display.toList = Json.integerChars n := Json.toList_toString n
      rw [hchars, Json.integerChars]
      exact List.mem_append_right _ hmem
    | float x => exact exists_not_isCapital_text x
    | nan id => exact ⟨'n', by simp [display, quoted, displayLayout], by decide⟩
    | text s => exact absurd rfl hne
    | torn _ | bytes _ | date _ _ | dateTime _ _ | foreign _ | enclosing _ _ | tuple _ _ =>
      exact hword.elim
  obtain ⟨c, hc, hnot⟩ := hno
  exact hnot (h c hc)

end Atom

/-! ### The signals of settings -/

namespace Config

open Entries (find? has ofPairs putAll)
open Environment (fixedSignals)
open Settings (section? signalsOf)
open TextMap (last? newNames)

variable {es configured : MapEntries} {name : String} {seen : List String} {config : Value}
  {settings : Settings} {part : String} {v : Value}

theorem keyed_fixedEntries : fixedEntries.Keyed := ⟨by decide, by decide⟩

/-- Only a text has the name of a fixed signal. -/
theorem eq_text_of_fixed {a : Atom} (hword : Json.IsWord a) (h : a.display ∈ fixedSignals.keys) :
    a = .text a.display := by
  have hcapital : ∀ n ∈ fixedSignals.keys, n.toList.Forall Atom.IsCapital := by decide
  exact Atom.eq_text_of_display hword (List.forall_iff_forall_mem.1 (hcapital _ h))

theorem has_fixedEntries {a : Atom} (hword : Json.IsWord a) :
    has Atom.same a fixedEntries = decide (a.display ∈ fixedSignals.keys) := by
  rw [Bool.eq_iff_iff, decide_eq_true_iff]
  constructor
  · intro h
    obtain ⟨v, hv⟩ := Option.isSome_iff_exists.1 h
    obtain ⟨key, hmem, hsame⟩ := MapEntries.exists_mem_of_find? hv
    obtain ⟨s, hs, heq⟩ := List.mem_map.1 hmem
    obtain ⟨rfl, -⟩ := Prod.mk.inj heq
    rw [Atom.same_comm, Atom.same_text] at hsame
    rw [hsame]
    exact List.mem_map_of_mem hs
  · intro h
    have hhas : ∀ n ∈ fixedSignals.keys, has Atom.same (.text n) fixedEntries = true := by decide
    rw [eq_text_of_fixed hword h]
    exact hhas _ h

/-- Where only the text itself has a name, the last text of the name is that of its value. -/
theorem last?_rendered (hes : es.Keyed) (h : ∀ e ∈ es, e.1.display = name → e.1 = .text name) :
    last? (rendered es) name = (MapEntries.get? es name).map Value.display := by
  unfold MapEntries.get?
  induction es with
  | nil => rfl
  | cons e es ih =>
    obtain ⟨-, hnew, hrest⟩ := MapEntries.keyed_cons.1 hes
    obtain ⟨he, hlater⟩ := List.forall_mem_cons.1 h
    have htail := ih hrest hlater
    rw [rendered, List.map_cons, last?, ← rendered, htail, find?]
    by_cases hname : e.1.display = name
    · rw [if_pos hname, if_pos (Atom.same_text.2 (he hname)), ← he hname, hnew]
      rfl
    · have hne : ¬e.1.same (.text name) = true := fun hsame =>
        hname (by rw [Atom.same_text.1 hsame, Atom.display])
      rw [if_neg hname, if_neg hne, Option.or_none]

/-- The fixed signals as they are configured. -/
def overlaid (configured : MapEntries) : MapEntries :=
  fixedEntries.map fun e => (e.1, (find? Atom.same e.1 configured).getD e.2)

/-- The names of the other signals that are configured. -/
def others (configured : MapEntries) : MapEntries :=
  configured.filter fun e => !has Atom.same e.1 fixedEntries

theorem rendered_others (hwords : ∀ e ∈ configured, Json.IsWord e.1) : rendered (others configured) =
    (rendered configured).filter fun s => decide (s.1 ∉ fixedSignals.keys) := by
  rw [others, rendered, rendered, List.filter_map]
  refine congrArg _ (List.filter_congr fun e he => ?_)
  rw [has_fixedEntries (hwords e he), Function.comp, decide_not]

theorem signalTexts_eq (h : configured.Keyed) : signalTexts configured =
    ofPairs (· == ·) (rendered (overlaid configured) ++ rendered (others configured)) := by
  have hall : putAll Atom.same fixedEntries configured = overlaid configured ++ others configured :=
    MapEntries.putAll_eq keyed_fixedEntries h
  rw [signalTexts, hall, rendered, List.map_append]
  rfl

theorem last?_overlaid (h : name ∈ fixedSignals.keys) (configured : MapEntries) :
    last? (rendered (overlaid configured)) name =
      ((MapEntries.get? configured name).map Value.display).or (some "true") := by
  have hpair : rendered (overlaid configured) =
      [("LOG_TO_STDERR",
          ((MapEntries.get? configured "LOG_TO_STDERR").getD (.text "true")).display),
        ("STRUCTURED_RESULTS",
          ((MapEntries.get? configured "STRUCTURED_RESULTS").getD (.text "true")).display)] := rfl
  have hname : name = "LOG_TO_STDERR" ∨ name = "STRUCTURED_RESULTS" := by
    simpa [fixedSignals, TextMap.keys] using h
  rw [hpair, last?, last?, last?]
  obtain rfl | rfl := hname
  · cases MapEntries.get? configured "LOG_TO_STDERR" <;> simp [Value.display, Atom.display]
  · cases MapEntries.get? configured "STRUCTURED_RESULTS" <;> simp [Value.display, Atom.display]

/-- **What the settings say of a signal**: what is configured last under its name, else what the
fixed signals say. -/
theorem get?_signalTexts (h : configured.Keyed) (hwords : ∀ e ∈ configured, Json.IsWord e.1)
    (name : String) : (signalTexts configured).get? name =
      (last? (rendered configured) name).or (last? fixedSignals name) := by
  rw [signalTexts_eq h, ofPairs, TextMap.get?_putAll, TextMap.last?_append, rendered_others hwords]
  refine Option.or_none.trans ?_
  by_cases hname : name ∈ fixedSignals.keys
  · have hunique : ∀ e ∈ configured, e.1.display = name → e.1 = .text name := by
      rintro e he rfl
      exact eq_text_of_fixed (hwords e he) hname
    have htrue : ∀ n ∈ fixedSignals.keys, last? fixedSignals n = some "true" := by decide
    have hnone : last? ((rendered configured).filter fun s => decide (s.1 ∉ fixedSignals.keys))
        name = none := by
      refine TextMap.last?_eq_none fun hmem => ?_
      obtain ⟨s, hs, rfl⟩ := List.mem_map.1 hmem
      exact of_decide_eq_true (List.mem_filter.1 hs).2 hname
    rw [last?_rendered h hunique, hnone, Option.none_or, last?_overlaid hname, htrue name hname]
  · rw [TextMap.last?_eq_none (m := rendered (overlaid configured)) hname,
      TextMap.last?_eq_none (m := fixedSignals) hname]
    refine congrArg (·.or none) (TextMap.last?_filter fun s _ hs => ?_)
    rw [hs]
    exact decide_eq_true hname

theorem last?_signalTexts (h : configured.Keyed) (hwords : ∀ e ∈ configured, Json.IsWord e.1)
    (name : String) : last? (signalTexts configured) name =
      (last? (rendered configured) name).or (last? fixedSignals name) := by
  rw [← get?_signalTexts h hwords]
  refine TextMap.last?_eq_get? ?_ name
  rw [signalTexts, ofPairs, TextMap.keys_putAll]
  exact TextMap.nodup_append_newNames List.nodup_nil _

/-- **Which signals the settings add**: those that are configured, in their order. -/
theorem newNames_signalTexts (h : configured.Keyed) (hwords : ∀ e ∈ configured, Json.IsWord e.1)
    (hseen : fixedSignals.keys ⊆ seen) :
    newNames seen (signalTexts configured).keys = newNames seen (rendered configured).keys := by
  have hothers : (rendered (others configured)).keys =
      (rendered configured).keys.filter fun n => decide (n ∉ fixedSignals.keys) := by
    rw [rendered_others hwords]
    show List.map (·.1) (List.filter ((fun n => decide (n ∉ fixedSignals.keys)) ∘ (·.1))
      (rendered configured)) = _
    exact List.filter_map.symm
  have hold : newNames seen fixedSignals.keys = [] :=
    (TextMap.newNames_filter (p := fun _ => false) fun n hn _ => hseen hn).symm.trans
      (by rw [List.filter_false, newNames])
  have hkeys : (signalTexts configured).keys =
      fixedSignals.keys ++ newNames fixedSignals.keys (rendered (others configured)).keys := by
    rw [signalTexts_eq h, ofPairs, TextMap.keys_putAll, TextMap.keys, TextMap.keys, List.map_append,
      TextMap.newNames_append]
    rfl
  rw [hkeys, TextMap.newNames_append, hold, List.nil_append, List.append_nil,
    TextMap.newNames_newNames hseen, hothers]
  exact TextMap.newNames_filter fun n hn hfixed => hseen (by simpa using hfixed)

/-! ### The signals of a configuration -/

/-- The entries of the signals section of a configuration, none if there is no such section. -/
def configuredSignals (config : Value) : MapEntries :=
  (config.field ["runtime", "signals"]).entries?.getD []

/-- **The keys of the signals of a configuration that is accepted** can be written. -/
theorem isWord_of_ofConfig (h : Settings.ofConfig config = .ok settings) :
    ∀ e ∈ configuredSignals config, Json.IsWord e.1 := by
  cases config with
  | map id es =>
    obtain ⟨-, hexpressible, -⟩ | ⟨-, -, e, herr, -⟩ | ⟨-, fault, herr⟩ := ofConfig_cases id es
    · have hsignals := Json.isExpressible_field hexpressible ["runtime", "signals"]
      rw [configuredSignals]
      generalize Value.field (.map id es) ["runtime", "signals"] = signals at hsignals
      cases hsignals with
      | map _ keys _ => exact keys
      | _ => exact nofun
    · cases h.symm.trans herr
    · cases h.symm.trans herr
  | _ => exact nofun

theorem section?_eq_ok (h : section? part v = .ok es) : HasEntries v es := by
  obtain ⟨-, es', hok, hshape⟩ | ⟨-, fault, herr⟩ := section?_cases part v
  · obtain rfl := Except.ok.inj (h.symm.trans hok)
    exact hshape
  · rw [h] at herr
    cases herr

/-- A section that is not filled has no entries, whatever it is. -/
theorem entries?_of_section (h : section? part (if v.isFilled then v else .null) = .ok es) :
    es = v.entries?.getD [] := by
  split at h
  · obtain ⟨rfl, rfl⟩ | ⟨id, rfl⟩ := section?_eq_ok h <;> rfl
  · next hempty =>
    obtain rfl := Except.ok.inj h
    cases v with
    | map id es =>
      cases es with
      | nil => rfl
      | cons e es => exact absurd rfl hempty
    | _ => rfl

theorem signals_of_ofSections {config runtime configured : MapEntries}
    (h : Settings.ofSections config runtime configured = .ok settings) :
    settings.signals = signalTexts configured := by
  obtain ⟨engine, -, h⟩ := Result.ok_of_bind h
  obtain ⟨user, -, h⟩ := Result.ok_of_bind h
  obtain ⟨network, -, h⟩ := Result.ok_of_bind h
  obtain ⟨signals, hsignals, h⟩ := Result.ok_of_bind h
  obtain ⟨digest, -, h⟩ := Result.ok_of_bind h
  obtain rfl := Except.ok.inj h
  obtain ⟨texts, htexts, hsignals⟩ := Result.ok_of_bind (Result.mapError_ok_iff.1 hsignals)
  obtain rfl := Except.ok.inj hsignals
  show ofPairs _ texts = signalTexts configured
  rw [Result.eq_map_of_mapM (fun e t ht => (shownEntry_eq_ok_iff.1 ht).2.2) htexts]
  rfl

/-- **The signals of a configuration that is accepted** are those of its section. -/
theorem signals_of_ofConfig (h : Settings.ofConfig config = .ok settings) :
    settings.signals = signalTexts (configuredSignals config) := by
  have hentries : ∀ (id : ObjectId) (es : MapEntries), Settings.ofEntries es = .ok settings →
      settings.signals = signalTexts (configuredSignals (.map id es)) := by
    intro id es hok
    unfold Settings.ofEntries at hok
    obtain ⟨runtime, hruntime, hok⟩ := Result.ok_of_bind hok
    obtain ⟨configured, hconfigured, hok⟩ := Result.ok_of_bind hok
    rw [signals_of_ofSections hok, entries?_of_section hconfigured, configuredSignals,
      field_signals (section?_eq_ok hruntime)]
  cases config with
  | map id es => exact hentries id es (ofConfig_map.symm.trans h)
  | _ =>
    unfold Settings.ofConfig at h
    split at h
    · cases h
    · exact hentries noObject [] h

end Config

end ScopedFn
