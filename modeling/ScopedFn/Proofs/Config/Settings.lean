import ScopedFn.Config.Load
import ScopedFn.Proofs.Json.Expressible
import ScopedFn.Proofs.Value.Decidable

/-!
# Settings of a loaded configuration

A loaded configuration gives settings, or is wrong in one of the ways that configurations can be,
or has no hash. The sections are looked at first and only they can be wrong; the hash concerns the
whole configuration, whatever is read of it. Settings that are given as no text have no hash either.

* `Config.gives_load` : what is loaded is a map;
* `Config.usableOrWrong_iff` : when a loaded configuration gives settings or is reported as wrong.
-/

set_option autoImplicit false

namespace ScopedFn.Config

/-- The value is a map. -/
def IsMap (v : Value) : Prop := ∃ id es, v = .map id es

/-! ### What loading gives -/

/-- A step gives nothing but values with a property, if it gives one. -/
def Gives {α : Type} (m : StateT Supply (Except LoadFault) α) (P : α → Prop) : Prop :=
  ∀ supply a supply', m.run supply = .ok (a, supply') → P a

section Gives

variable {α β : Type} {m : StateT Supply (Except LoadFault) α} {P : α → Prop}

theorem Gives.bind {f : α → StateT Supply (Except LoadFault) β} {Q : β → Prop} (hm : Gives m P)
    (hf : ∀ a, P a → Gives (f a) Q) : Gives (m >>= f) Q := by
  intro supply b supply' h
  rw [StateT.run_bind] at h
  obtain ⟨⟨a, s⟩, ha, hb⟩ := Result.ok_of_bind h
  exact hf a (hm supply a s ha) s b supply' hb

theorem gives_pure {a : α} (ha : P a) : Gives (pure a) P := by
  rintro supply b supply' ⟨⟩
  exact ha

theorem gives_throw (fault : LoadFault) : Gives (throw fault) P := by
  rintro supply a supply' ⟨⟩

theorem gives_lift {x : Except LoadFault α} (hx : ∀ a, x = .ok a → P a) :
    Gives (liftM x) P := by
  intro supply a supply' h
  cases x with
  | error fault => cases h
  | ok b =>
    cases h
    exact hx a rfl

end Gives

theorem isMap_of_merge {base override v : Value} (h : merge base override = .ok v) : IsMap v := by
  unfold merge at h
  split at h
  · obtain ⟨es, -, rfl⟩ := Result.ok_of_map h
    exact ⟨_, es, rfl⟩
  · cases h

theorem gives_layer (base override : Value) : Gives (liftM (layer base override)) IsMap := by
  refine gives_lift fun v h => ?_
  unfold layer at h
  split at h
  · next merged hmerge =>
    obtain rfl := Except.ok.inj h
    exact isMap_of_merge hmerge
  · cases h
  · cases h
  · cases h

variable {files : Files} {defaults overlay : Option Path.Lexical}

theorem gives_loadFile (p : Path.Lexical) : Gives (loadFile files p) fun _ => True :=
  fun _ _ _ _ => trivial

/-- The second file adds a layer if it exists. -/
theorem gives_overlay {base : Value} (hbase : IsMap base) : Gives (match overlay with
    | none => pure base
    | some p =>
      match files.present p with
      | .error fault => throw (.file fault)
      | .ok false => pure base
      | .ok true => do layer base (← loadFile files p)) IsMap := by
  cases overlay with
  | none => exact gives_pure hbase
  | some p =>
    dsimp only
    split
    · exact gives_throw _
    · exact gives_pure hbase
    · exact (gives_loadFile p).bind fun file _ => gives_layer base file

/-- **What is loaded is a map.** -/
theorem gives_load : Gives (load files defaults overlay) IsMap := by
  unfold load
  refine (gives_layer _ _).bind fun base hbase => ?_
  cases defaults with
  | none => exact (gives_pure hbase).bind fun _ => gives_overlay
  | some p =>
    exact (gives_loadFile p).bind fun file _ => (gives_layer base file).bind fun _ => gives_overlay

/-! ### What a configuration gives -/

/-- The value can be read as a section: it is null or a map. -/
def IsSection (v : Value) : Prop := v = .null ∨ IsMap v

/-- The sections that are read are sections, the signals only if something is there. -/
def HasSections (config : Value) : Prop :=
  IsSection (config.field ["runtime"]) ∧
    ((config.field ["runtime", "signals"]).isFilled = true →
      IsSection (config.field ["runtime", "signals"]))

open Settings (section?)

/-- The entries of a section are those of a map, and none for null. -/
def HasEntries (v : Value) (es : MapEntries) : Prop := v = .null ∧ es = [] ∨ ∃ id, v = .map id es

theorem HasEntries.textFaultInEntries? {v : Value} {es : MapEntries} (h : HasEntries v es)
    (hv : v.textFault? = none) : Value.textFaultInEntries? es = none := by
  obtain ⟨-, rfl⟩ | ⟨id, rfl⟩ := h
  · rfl
  · exact hv

theorem section?_cases (part : String) (v : Value) :
    IsSection v ∧ (∃ es, section? part v = .ok es ∧ HasEntries v es) ∨
      ¬IsSection v ∧ ∃ fault, section? part v = .error (.config fault) := by
  unfold section?
  split
  · exact .inl ⟨.inl rfl, [], rfl, .inl ⟨rfl, rfl⟩⟩
  · next id es => exact .inl ⟨.inr ⟨id, es, rfl⟩, es, rfl, .inr ⟨id, rfl⟩⟩
  · next v hnull hmap =>
    refine .inr ⟨?_, _, rfl⟩
    rintro (rfl | ⟨id, es, rfl⟩)
    · exact hnull rfl
    · exact hmap id es rfl

variable {id : ObjectId} {es : MapEntries}

theorem ofConfig_map : Settings.ofConfig (.map id es) = Settings.ofEntries es := by
  unfold Settings.ofConfig
  cases es with
  | nil => rfl
  | cons e es => rfl

theorem field_runtime : Value.field (.map id es) ["runtime"] = es.get "runtime" := rfl

theorem field_signals {runtime : MapEntries} (h : HasEntries (es.get "runtime") runtime) :
    Value.field (.map id es) ["runtime", "signals"] = runtime.get "signals" := by
  change (es.get "runtime").field ["signals"] = _
  obtain ⟨hnull, rfl⟩ | ⟨i, hmap⟩ := h
  · rw [hnull]
    rfl
  · rw [hmap]
    rfl

theorem hash_cases (id : ObjectId) (es : MapEntries) :
    Json.IsExpressible (.map id es) ∧ (∃ digest, hash (.map noObject es) = .ok digest) ∨
      ¬Json.IsExpressible (.map id es) ∧
        ∃ fault, hash (.map noObject es) = .error (.noText fault) := by
  have hsame : Json.IsExpressible (.map id es) ↔ Json.IsExpressible (.map noObject es) := by
    rw [Json.isExpressible_map, Json.isExpressible_map]
  rw [hsame, ← Json.exists_canonical_iff]
  unfold hash
  cases Json.canonical (.map noObject es) with
  | ok s => exact .inl ⟨⟨s, rfl⟩, _, rfl⟩
  | error fault =>
    refine .inr ⟨?_, fault, rfl⟩
    rintro ⟨s, h⟩
    cases h

/-- The names and texts of some entries. -/
def rendered (es : MapEntries) : TextMap := es.map fun e => (e.1.display, e.2.display)

/-- The fixed signals as entries. -/
def fixedEntries : MapEntries := Environment.fixedSignals.map fun s => (.text s.1, .text s.2)

/-- The signals of a configuration laid over the fixed ones, with the texts that are shown. -/
def signalTexts (configured : MapEntries) : TextMap :=
  Entries.ofPairs (· == ·) (rendered (Entries.putAll Atom.same fixedEntries configured))

theorem textFault?_fixedEntries :
    ∀ e ∈ fixedEntries, e.1.textFault? = none ∧ e.2.textFault? = none := by
  decide

theorem shownEntry_eq_ok_iff {e : Atom × Value} {t : String × String} :
    Settings.shownEntry e = .ok t ↔
      e.1.textFault? = none ∧ e.2.textFault? = none ∧ t = (e.1.display, e.2.display) := by
  simp only [Settings.shownEntry, Result.bind_ok_iff, Atom.shown_eq_ok_iff, Value.shown_eq_ok_iff]
  constructor
  · rintro ⟨k, ⟨hkey, rfl⟩, v, ⟨hvalue, rfl⟩, h⟩
    exact ⟨hkey, hvalue, (Except.ok.inj h).symm⟩
  · rintro ⟨hkey, hvalue, rfl⟩
    exact ⟨_, ⟨hkey, rfl⟩, _, ⟨hvalue, rfl⟩, rfl⟩

theorem signalsOf_of_given {configured : MapEntries}
    (h : Value.textFaultInEntries? configured = none) :
    Settings.signalsOf configured = .ok (signalTexts configured) := by
  have hall : ∀ e ∈ Entries.putAll Atom.same fixedEntries configured,
      e.1.textFault? = none ∧ e.2.textFault? = none :=
    Entries.forall_putAll (P := (Atom.textFault? · = none)) (Q := (Value.textFault? · = none))
      textFault?_fixedEntries (Value.textFaultInEntries?_eq_none_iff.1 h)
  refine Result.bind_ok_iff.2 ⟨_, Result.mapM_eq_ok fun e he => ?_, rfl⟩
  exact shownEntry_eq_ok_iff.2 ⟨(hall e he).1, (hall e he).2, rfl⟩

theorem exists_textOr {v : Value} (h : v.textFault? = none) (default : String) :
    ∃ text, Settings.textOr default v = .ok text := by
  unfold Settings.textOr
  split
  · exact ⟨_, Value.shown_eq_ok_iff.2 ⟨h, rfl⟩⟩
  · exact ⟨default, rfl⟩

/-- Texts and hash are given if all parts of the configuration can be written. -/
theorem exists_ofSections {runtime configured : MapEntries}
    (hruntime : Value.textFaultInEntries? runtime = none)
    (hconfigured : Value.textFaultInEntries? configured = none)
    (hhash : ∃ digest, hash (.map noObject es) = .ok digest) :
    ∃ settings, Settings.ofSections es runtime configured = .ok settings := by
  obtain ⟨engine, hengine⟩ := exists_textOr (MapEntries.textFault?_get hruntime "engine") _
  obtain ⟨user, huser⟩ := exists_textOr (MapEntries.textFault?_get hruntime "user") _
  obtain ⟨network, hnetwork⟩ := exists_textOr (MapEntries.textFault?_get hruntime "network") _
  obtain ⟨digest, hdigest⟩ := hhash
  rw [Settings.ofSections, hengine, huser, hnetwork, signalsOf_of_given hconfigured, hdigest]
  exact ⟨_, rfl⟩

/-- What is missing is a text or the hash. -/
theorem ofSections_cases (es runtime configured : MapEntries) :
    (∃ settings digest, Settings.ofSections es runtime configured = .ok settings ∧
        hash (.map noObject es) = .ok digest) ∨
      ∃ e, Settings.ofSections es runtime configured = .error e ∧ ∀ fault, e ≠ .config fault := by
  unfold Settings.ofSections
  rcases Settings.textOr _ (MapEntries.get runtime "engine") with e | engine
  · exact .inr ⟨_, rfl, nofun⟩
  rcases Settings.textOr _ (MapEntries.get runtime "user") with e | user
  · exact .inr ⟨_, rfl, nofun⟩
  rcases Settings.textOr _ (MapEntries.get runtime "network") with e | network
  · exact .inr ⟨_, rfl, nofun⟩
  rcases Settings.signalsOf configured with e | signals
  · exact .inr ⟨_, rfl, nofun⟩
  rcases hash (.map noObject es) with e | digest
  · exact .inr ⟨_, rfl, nofun⟩
  · exact .inl ⟨_, digest, rfl, rfl⟩

/-- The sections decide first, and the other parts decide what they leave open. -/
theorem ofConfig_cases (id : ObjectId) (es : MapEntries) :
    HasSections (.map id es) ∧ Json.IsExpressible (.map id es) ∧
        (∃ settings, Settings.ofConfig (.map id es) = .ok settings) ∨
      HasSections (.map id es) ∧ ¬Json.IsExpressible (.map id es) ∧
        (∃ e, Settings.ofConfig (.map id es) = .error e ∧ ∀ fault, e ≠ .config fault) ∨
      ¬HasSections (.map id es) ∧
        ∃ fault, Settings.ofConfig (.map id es) = .error (.config fault) := by
  rw [ofConfig_map, HasSections, field_runtime]
  unfold Settings.ofEntries
  rcases section?_cases "runtime" (es.get "runtime") with
    ⟨hruntime, runtime, hok, hshape⟩ | ⟨hnot, fault, herr⟩
  swap
  · rw [herr]
    exact .inr (.inr ⟨fun h => hnot h.1, fault, rfl⟩)
  rw [field_signals hshape, hok]
  dsimp only [bind, Except.bind]
  -- signals that are not filled are read as null, which is a section
  have hsection :
      IsSection (if (runtime.get "signals").isFilled then runtime.get "signals" else .null) ↔
        ((runtime.get "signals").isFilled = true → IsSection (runtime.get "signals")) := by
    split_ifs with hfilled
    · simp [hfilled]
    · simp [hfilled, IsSection]
  rw [← hsection]
  rcases section?_cases "runtime.signals" _ with
    ⟨hsignals, configured, hok', hshape'⟩ | ⟨hnot, fault, herr⟩
  swap
  · rw [herr]
    exact .inr (.inr ⟨fun h => hnot h.2, fault, rfl⟩)
  rw [hok']
  -- what can be written is given as text in all its parts
  rcases hash_cases id es with ⟨hexpressible, hhash⟩ | ⟨hexpressible, fault, hhash⟩
  · have hes := Json.textFault?_of_isExpressible hexpressible
    have hruntimeTexts := hshape.textFaultInEntries? (MapEntries.textFault?_get hes "runtime")
    have hconfiguredTexts : Value.textFaultInEntries? configured = none := by
      refine hshape'.textFaultInEntries? ?_
      split_ifs
      · exact MapEntries.textFault?_get hruntimeTexts "signals"
      · rfl
    exact .inl ⟨⟨hruntime, hsignals⟩, hexpressible,
      exists_ofSections hruntimeTexts hconfiguredTexts hhash⟩
  · obtain ⟨_, digest, -, hdigest⟩ | hfailed := ofSections_cases es runtime configured
    · cases hdigest.symm.trans hhash
    · exact .inr (.inl ⟨⟨hruntime, hsignals⟩, hexpressible, hfailed⟩)

/-- A configuration gives settings, or is found to be wrong. -/
def UsableOrWrong (config : Value) : Prop :=
  (∃ settings, Settings.ofConfig config = .ok settings) ∨
    ∃ fault, Settings.ofConfig config = .error (.config fault)

variable {supply supply' : Supply} {config : Value}

theorem not_usableOrWrong {e : SettingsFault} (h : Settings.ofConfig config = .error e)
    (he : ∀ fault, e ≠ .config fault) : ¬UsableOrWrong config := by
  rw [UsableOrWrong, h]
  rintro (⟨_, h⟩ | ⟨fault, h⟩)
  · cases h
  · exact he fault (Except.error.inj h)

/-- **Which loaded configurations are usable or reported as wrong.** They are those that JSON can
express in all their parts, read or not, and those with a section that is no map. -/
theorem usableOrWrong_iff
    (hload : (load files defaults overlay).run supply = .ok (config, supply')) :
    UsableOrWrong config ↔ Json.IsExpressible config ∨ ¬HasSections config := by
  obtain ⟨id, es, rfl⟩ := gives_load supply config supply' hload
  rcases ofConfig_cases id es with
    ⟨-, hexpressible, hok⟩ | ⟨hsections, hexpressible, e, herr, he⟩ | ⟨hsections, herr⟩
  · exact iff_of_true (.inl hok) (.inl hexpressible)
  · exact iff_of_false (not_usableOrWrong herr he)
      fun h => h.elim hexpressible fun h => h hsections
  · exact iff_of_true (.inr herr) (.inr hsections)

/-- A working directory with a configuration file, and the file's path. -/
def fileOf (text : String) : Files × Option Path.Lexical :=
  let p := Path.Lexical.ofPath "c.yaml".toList
  (Files.empty.addFile p text.toUTF8.toList, some p)

/-- The default configuration with another engine and further entries. -/
def defaultWith (engine : String) (further : MapEntries) : Value :=
  .map noObject ((.text "runtime", .record [
    ("engine", .text engine),
    ("user", .text "nobody"),
    ("network", .text "none"),
    ("keep_reader_annotations", .bool true),
    ("signals", .record [
      ("LOG_TO_STDERR", .text "true"),
      ("STRUCTURED_RESULTS", .text "true")])]) :: further)

/-- A list under a key that nothing reads does no harm. -/
theorem usableOrWrong_unread :
    let file := fileOf "x: [1.5]\nruntime: \x7bengine: podman\x7d\n"
    let config := defaultWith "podman" [(.text "x", .list 3 [.atom (.float ⟨0x3ff8000000000000⟩)])]
    (load file.1 file.2 none).run 1 = .ok (config, 10) ∧ UsableOrWrong config := by
  intro file config
  have hload : (load file.1 file.2 none).run 1 = .ok (config, 10) := by decide +kernel
  have hexpressible : Json.IsExpressible config := by
    simp [config, defaultWith, Value.record, Json.isExpressible_map, Json.isExpressible_list,
      Json.isExpressible_atom, Json.AreComparable, Json.isText, Json.IsWord]
  exact ⟨hload, (usableOrWrong_iff hload).2 (.inl hexpressible)⟩

/-- A date under a key that nothing reads is reported as no fault of a configuration. -/
theorem unread_date_unusable :
    let file := fileOf "x: 2020-01-02\n"
    let config := defaultWith "docker" [(.text "x", .atom (.date 3 ⟨2020, 1, 2, by decide⟩))]
    (load file.1 file.2 none).run 1 = .ok (config, 4) ∧ ¬UsableOrWrong config ∧
      ∃ e, Settings.ofConfig config = .error e ∧ ∀ fault, e ≠ .config fault := by
  intro file config
  have hsections : HasSections config := ⟨.inr ⟨_, _, rfl⟩, fun _ => .inr ⟨_, _, rfl⟩⟩
  have hexpressible : ¬Json.IsExpressible config := by
    simp [config, defaultWith, Json.isExpressible_map, Json.isExpressible_atom, Json.IsWord]
  refine ⟨by decide +kernel, ?_⟩
  rcases ofConfig_cases _ _ with ⟨-, h, -⟩ | ⟨-, -, e, herr, he⟩ | ⟨h, -⟩
  · exact absurd h hexpressible
  · exact ⟨not_usableOrWrong herr he, e, herr, he⟩
  · exact absurd hsections h

end ScopedFn.Config
