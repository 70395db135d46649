/-
  What a series of declarations leaves to be looked up.

  1. **Declarations** — `declare` makes a declaration of any sort and says what it declared;
     `declareAll` makes one after the other and keeps a log.

  2. **Log** — the devices that a signal was declared on, the kinds that a device was declared
     with, the oscillators that list a signal, each in the order of the declarations.

  3. **Attaching** — an oscillator changes the first declaration of every signal that it lists and
     no other (`Attached.of_attachAll`).

  4. **Records** — hence the log determines all declarations of a signal in the experiment
     (`declarationsIn`).  One declaration keeps this (`Records.declare`), and so does a series
     (`Records.declareAll`).

  5. **Agreement** — the experiment answers with the first declaration of a signal or a device, the
     signal map and the session answer with the last one.  What they say agrees if and only if
     the first and the last declaration do (`lookups_agree_iff`).
-/
import PulseTimeline.Experiment.Builder
import PulseTimeline.Experiment.SignalMap
import PulseTimeline.Schedule.Session

namespace PulseTimeline

/-! ## Declarations -/

/-- A call of a builder. -/
inductive Declaration
  | name (noun : Noun) (text : String)
  | device (name : String) (kind : DeviceKind)
  | signal (name : String) (device : DeviceUid)
  | oscillator (name : String) (kind : OscillatorKind) (signals : List SignalUid)

/-- What a call declared. -/
inductive Declared
  | name (id : NameId)
  | device (device : Device)
  | signal (uid : SignalUid) (device : DeviceUid)
  | oscillator (oscillator : Oscillator)

namespace Builder

/-- Make a declaration. -/
def declare (b : Builder) : Declaration → Except DeclarationError (Declared × Builder)
  | .name noun text => .ok (.name (b.uid noun text).1.id, (b.uid noun text).2)
  | .device name kind => .ok (.device ⟨(b.device name kind).1, kind⟩, (b.device name kind).2)
  | .signal name device => do
      let (uid, b) ← b.signal name device
      pure (.signal uid device, b)
  | .oscillator name kind signals => do
      let (o, b) ← b.oscillator name kind signals
      pure (.oscillator o, b)

/-- Make one declaration after the other, and log what they declared. -/
def declareAll (b : Builder) : List Declaration → Except DeclarationError (List Declared × Builder)
  | [] => .ok ([], b)
  | d :: ds => do
      let (what, b) ← b.declare d
      let (log, b) ← b.declareAll ds
      pure (what :: log, b)

end Builder

/-- The declarations of a signal. -/
def declarationsOf (u : SignalUid) (signals : List Signal) : List Signal :=
  signals.filter fun s => s.uid = u

/-- The kinds with which a device is declared. -/
def kindsOf (uid : DeviceUid) (devices : List Device) : List DeviceKind :=
  (devices.filter fun d => d.uid = uid).map Device.kind

/-! ## Log -/

namespace Declared

/-- The device, if one was declared. -/
def device? : Declared → Option Device
  | .device d => some d
  | _ => none

/-- The device on which the signal was declared. -/
def deviceOf? (u : SignalUid) : Declared → Option DeviceUid
  | .signal uid on => if uid = u then some on else none
  | _ => none

/-- The oscillator, if it lists the signal. -/
def oscillatorOf? (u : SignalUid) : Declared → Option Oscillator
  | .oscillator o => if u ∈ o.signals then some o else none
  | _ => none

end Declared

/-- The devices in the order in which they were declared. -/
def devicesIn (log : List Declared) : List Device := log.filterMap Declared.device?

/-- The kinds with which a device was declared. -/
def kindsIn (log : List Declared) (uid : DeviceUid) : List DeviceKind :=
  kindsOf uid (devicesIn log)

/-- The devices on which a signal was declared. -/
def signalDevicesIn (log : List Declared) (u : SignalUid) : List DeviceUid :=
  log.filterMap (Declared.deviceOf? u)

/-- The oscillators that list a signal. -/
def oscillatorsIn (log : List Declared) (u : SignalUid) : List Oscillator :=
  log.filterMap (Declared.oscillatorOf? u)

/-- The signal with this oscillator, or without one. -/
def Signal.tuned (oscillator : Option Oscillator) (s : Signal) : Signal := { s with oscillator }

/-- All declarations of a signal: the first one carries the oscillator that listed the signal
    last, the others carry none. -/
def declarationsIn (log : List Declared) (u : SignalUid) : List Signal :=
  ((signalDevicesIn log u).map fun device => (⟨u, device, none⟩ : Signal)).modifyHead
    (Signal.tuned (oscillatorsIn log u).getLast?)

/-- One declaration more: a device is the last one of its log. -/
theorem devicesIn_concat (log : List Declared) (what : Declared) :
    devicesIn (log ++ [what]) = devicesIn log ++ what.device?.toList :=
  filterMap_concat _ log what

/-- One declaration more: the device of the signal, if it declares this signal, comes last. -/
theorem signalDevicesIn_concat (log : List Declared) (what : Declared) (u : SignalUid) :
    signalDevicesIn (log ++ [what]) u = signalDevicesIn log u ++ (what.deviceOf? u).toList :=
  filterMap_concat _ log what

/-- One declaration more: the oscillator, if it lists the signal, comes last. -/
theorem oscillatorsIn_concat (log : List Declared) (what : Declared) (u : SignalUid) :
    oscillatorsIn (log ++ [what]) u = oscillatorsIn log u ++ (what.oscillatorOf? u).toList :=
  filterMap_concat _ log what

/-! ## Attaching -/

/-- An oscillator is attached to the first declaration of each of the listed signals. -/
structure Attached (o : Oscillator) (uids : List SignalUid) (before after : List Signal) :
    Prop where
  declarations : ∀ u, declarationsOf u after =
    if u ∈ uids then (declarationsOf u before).modifyHead (Signal.tuned (some o))
    else declarationsOf u before
  devices : after.map Signal.device = before.map Signal.device
  /-- Only declared signals can be listed. -/
  listed : ∀ u ∈ uids, declarationsOf u before ≠ []

namespace Attached

variable {o : Oscillator} {before between after : List Signal}

/-- Without listed signals nothing changes. -/
theorem none_listed : Attached o [] before before where
  declarations := fun _ => rfl
  devices := rfl
  listed := fun _ h => nomatch h

/-- The signal in front is the first declaration of its name, and it is tuned. -/
theorem first (s : Signal) (rest : List Signal) :
    Attached o [s.uid] (s :: rest) (s.tuned (some o) :: rest) where
  declarations := fun u => by
    unfold declarationsOf
    by_cases hu : s.uid = u
    · simp [Signal.tuned, hu]
    · have hu' : ¬ u = s.uid := fun he => hu he.symm
      simp [Signal.tuned, hu, hu']
  devices := rfl
  listed := fun u hu => by
    cases List.mem_singleton.mp hu
    simp [declarationsOf]

/-- A signal of another name in front is passed over. -/
theorem later {s : Signal} {uid : SignalUid} (hne : s.uid ≠ uid)
    (h : Attached o [uid] before after) : Attached o [uid] (s :: before) (s :: after) where
  declarations := fun u => by
    have hrest := h.declarations u
    unfold declarationsOf at hrest ⊢
    rw [List.filter_cons, hrest, List.filter_cons]
    by_cases hu : s.uid = u
    · have hu' : u ≠ uid := fun he => hne (hu.trans he)
      simp [hu, hu']
    · simp [hu]
  devices := by rw [List.map_cons, h.devices, List.map_cons]
  listed := fun u hu => by
    cases List.mem_singleton.mp hu
    have hrest := h.listed uid hu
    unfold declarationsOf at hrest ⊢
    simpa [hne] using hrest

/-- Looking for a signal and tuning it attaches the oscillator to its first declaration. -/
theorem of_attach {uid : SignalUid} (h : Builder.attach o uid before = some after) :
    Attached o [uid] before after := by
  induction before generalizing after with
  | nil => cases h
  | cons s rest ih =>
      by_cases hs : s.uid = uid
      · subst hs
        rw [Builder.attach, if_pos rfl] at h
        cases h
        exact first s rest
      · rw [Builder.attach, if_neg hs, Option.map_eq_some_iff] at h
        obtain ⟨after, hafter, rfl⟩ := h
        exact later hs (ih hafter)

/-- Listed once more or not, the first declaration carries the oscillator in the end. -/
theorem andThen {us vs : List SignalUid} (h : Attached o us before between)
    (h' : Attached o vs between after) : Attached o (us ++ vs) before after where
  declarations := fun u => by
    rw [h'.declarations, h.declarations]
    by_cases hv : u ∈ vs
    · by_cases hu : u ∈ us
      · rw [if_pos hv, if_pos hu, if_pos (List.mem_append_right us hv), List.modifyHead_modifyHead]
        rfl
      · rw [if_pos hv, if_neg hu, if_pos (List.mem_append_right us hv)]
    · simp [hv]
  devices := h'.devices.trans h.devices
  listed := fun u hu => by
    by_cases hus : u ∈ us
    · exact h.listed u hus
    · have hne := h'.listed u ((List.mem_append.mp hu).resolve_left hus)
      rwa [h.declarations, if_neg hus] at hne

/-- So does tuning the listed signals one after the other, whatever is listed twice. -/
theorem of_attachAll {uids : List SignalUid} (h : Builder.attachAll o uids before = some after) :
    Attached o uids before after := by
  induction uids generalizing before with
  | nil =>
      cases h
      exact none_listed
  | cons uid uids ih =>
      unfold Builder.attachAll at h
      rw [List.foldlM_cons] at h
      obtain ⟨between, hfirst, hrest⟩ := Option.bind_eq_some_iff.mp h
      exact (of_attach hfirst).andThen (ih hrest)

end Attached

/-! ## Records -/

/-- What a declaration does to the objects. -/
theorem Builder.declare_cases {b b' : Builder} {d : Declaration} {what : Declared}
    (h : b.declare d = .ok (what, b')) :
    (∃ id, what = .name id ∧ b'.signals = b.signals ∧ b'.devices = b.devices) ∨
    (∃ device, what = .device device ∧ b'.signals = b.signals ∧
      b'.devices = b.devices ++ [device]) ∨
    (∃ uid device, what = .signal uid device ∧ device ∈ b.devices.map Device.uid ∧
      b'.signals = b.signals ++ [⟨uid, device, none⟩] ∧ b'.devices = b.devices) ∨
    (∃ o, what = .oscillator o ∧ Attached o o.signals b.signals b'.signals ∧
      b'.devices = b.devices) := by
  cases d with
  | name noun text =>
      cases h
      exact .inl ⟨_, rfl, rfl, rfl⟩
  | device name kind =>
      cases h
      exact .inr (.inl ⟨_, rfl, rfl, rfl⟩)
  | signal name device =>
      by_cases hd : b.devices.any fun d => d.uid = device
      · simp only [declare, signal, hd, if_true] at h
        cases h
        obtain ⟨d, hd, hu⟩ := List.any_eq_true.mp hd
        have hmem : device ∈ b.devices.map Device.uid :=
          List.mem_map.mpr ⟨d, hd, of_decide_eq_true hu⟩
        exact .inr (.inr (.inl ⟨_, _, rfl, hmem, rfl, rfl⟩))
      · simp only [declare, signal, hd] at h
        cases h
  | oscillator name kind uids =>
      simp only [declare, oscillator] at h
      cases hall : attachAll ⟨(b.uid .oscillator name).1, kind, uids⟩ uids
          (b.uid .oscillator name).2.signals with
      | none =>
          rw [hall] at h
          cases h
      | some signals =>
          rw [hall] at h
          cases h
          exact .inr (.inr (.inr ⟨_, rfl, .of_attachAll hall, rfl⟩))

/-- The builder holds what the log says. -/
structure Records (log : List Declared) (b : Builder) : Prop where
  devices : b.devices = devicesIn log
  signals : ∀ u, declarationsOf u b.signals = declarationsIn log u
  /-- The device of every signal is declared. -/
  known : ∀ uid ∈ b.signals.map Signal.device, uid ∈ b.devices.map Device.uid
  /-- Every signal of an oscillator is declared. -/
  listed : ∀ u, signalDevicesIn log u = [] → oscillatorsIn log u = []

/-- At the beginning nothing was declared and nothing is held. -/
theorem records_empty : Records [] .empty where
  devices := rfl
  signals := fun _ => rfl
  known := fun _ h => nomatch h
  listed := fun _ _ => rfl

/-- A signal has no declarations if and only if it was declared on no device, listed or not. -/
theorem declarationsIn_eq_nil {log : List Declared} {u : SignalUid} :
    declarationsIn log u = [] ↔ signalDevicesIn log u = [] := by
  unfold declarationsIn
  cases signalDevicesIn log u <;> simp

/-- A declaration of something else leaves the signals. -/
theorem Records.other {log : List Declared} {b b' : Builder} {what : Declared}
    (h : Records log b) (hd : ∀ u, what.deviceOf? u = none) (ho : ∀ u, what.oscillatorOf? u = none)
    (hs : b'.signals = b.signals) (hv : b'.devices = b.devices ++ what.device?.toList) :
    Records (log ++ [what]) b' where
  devices := by rw [hv, h.devices, devicesIn_concat]
  signals := fun u => by
    unfold declarationsIn
    rw [hs, signalDevicesIn_concat, oscillatorsIn_concat, hd, ho, Option.toList_none,
      Option.toList_none, List.append_nil, List.append_nil]
    exact h.signals u
  known := fun uid huid => by
    rw [hs] at huid
    rw [hv, List.map_append]
    exact List.mem_append_left _ (h.known uid huid)
  listed := fun u hu => by
    rw [signalDevicesIn_concat, hd, Option.toList_none, List.append_nil] at hu
    rw [oscillatorsIn_concat, ho, h.listed u hu]
    rfl

/-- A signal is held behind all others, without an oscillator: those that listed its name before
    were given to its first declaration. -/
theorem Records.signal {log : List Declared} {b b' : Builder} {uid : SignalUid}
    {device : DeviceUid} (h : Records log b) (hmem : device ∈ b.devices.map Device.uid)
    (hs : b'.signals = b.signals ++ [⟨uid, device, none⟩]) (hv : b'.devices = b.devices) :
    Records (log ++ [.signal uid device]) b' where
  devices := by
    rw [hv, h.devices, devicesIn_concat]
    exact (List.append_nil _).symm
  signals := fun u => by
    have hold := h.signals u
    have hlisted := h.listed u
    unfold declarationsOf declarationsIn at hold ⊢
    rw [hs, List.filter_append, hold, signalDevicesIn_concat, oscillatorsIn_concat]
    by_cases hu : uid = u
    · subst hu
      cases hdevices : signalDevicesIn log uid with
      | nil =>
          -- Nothing lists a signal that is new.
          simp [Declared.deviceOf?, Declared.oscillatorOf?, hlisted hdevices, Signal.tuned]
      | cons first rest => simp [Declared.deviceOf?, Declared.oscillatorOf?]
    · simp [Declared.deviceOf?, Declared.oscillatorOf?, hu]
  known := fun d hd => by
    rw [hs, List.map_append, List.mem_append] at hd
    rw [hv]
    rcases hd with hd | hd
    · exact h.known d hd
    · rw [List.mem_singleton.mp hd]
      exact hmem
  listed := fun u hu => by
    rw [signalDevicesIn_concat, List.append_eq_nil_iff] at hu
    rw [oscillatorsIn_concat, h.listed u hu.1]
    rfl

/-- An oscillator is carried by the first declaration of each signal that it lists. -/
theorem Records.oscillator {log : List Declared} {b b' : Builder} {o : Oscillator}
    (h : Records log b) (hs : Attached o o.signals b.signals b'.signals)
    (hv : b'.devices = b.devices) : Records (log ++ [.oscillator o]) b' where
  devices := by
    rw [hv, h.devices, devicesIn_concat]
    exact (List.append_nil _).symm
  signals := fun u => by
    rw [hs.declarations, h.signals]
    unfold declarationsIn
    rw [signalDevicesIn_concat, oscillatorsIn_concat]
    show _ = ((signalDevicesIn log u ++ []).map _).modifyHead _
    rw [List.append_nil]
    by_cases hu : u ∈ o.signals
    · simp only [Declared.oscillatorOf?, hu, if_true, List.modifyHead_modifyHead,
        Option.toList_some, List.getLast?_append, List.getLast?_singleton, Option.some_or]
      rfl
    · simp [Declared.oscillatorOf?, hu]
  known := fun d hd => by
    rw [hs.devices] at hd
    rw [hv]
    exact h.known d hd
  listed := fun u hu => by
    rw [signalDevicesIn_concat, List.append_eq_nil_iff] at hu
    have hno : u ∉ o.signals := fun hmem =>
      hs.listed u hmem ((h.signals u).trans (declarationsIn_eq_nil.mpr hu.1))
    simp [oscillatorsIn_concat, h.listed u hu.1, Declared.oscillatorOf?, hno]

/-- Whatever is declared, the builder goes on to hold what the log says. -/
theorem Records.declare {log : List Declared} {b b' : Builder} {d : Declaration} {what : Declared}
    (h : Records log b) (hd : b.declare d = .ok (what, b')) : Records (log ++ [what]) b' := by
  obtain ⟨id, rfl, hs, hv⟩ | ⟨device, rfl, hs, hv⟩ | ⟨uid, device, rfl, hmem, hs, hv⟩ |
    ⟨o, rfl, hs, hv⟩ := Builder.declare_cases hd
  · exact h.other (fun _ => rfl) (fun _ => rfl) hs (hv.trans (List.append_nil _).symm)
  · exact h.other (fun _ => rfl) (fun _ => rfl) hs hv
  · exact h.signal hmem hs hv
  · exact h.oscillator hs hv

/-- A run of declarations keeps to the log, whatever it starts from. -/
theorem Records.declareAll {log more : List Declared} {b b' : Builder} {ds : List Declaration}
    (h : Records log b) (hds : b.declareAll ds = .ok (more, b')) : Records (log ++ more) b' := by
  induction ds generalizing log b more with
  | nil =>
      cases hds
      rw [List.append_nil]
      exact h
  | cons d ds ih =>
      obtain ⟨⟨what, between⟩, hd, hds⟩ := bind_ok hds
      obtain ⟨⟨rest, last⟩, hrest, hlast⟩ := bind_ok hds
      cases hlast
      rw [← List.singleton_append, ← List.append_assoc]
      exact ih (h.declare hd) hrest

/-! ## Agreement -/

namespace Experiment

/-- The signal map and the session tell of a signal what the experiment does. -/
def LookupsAgree (x : Experiment) (u : SignalUid) : Prop :=
  ∃ s d, x.signal? u = some s ∧ x.device? s.device = some d ∧
    x.signalMap.oscillator u = .ok s.oscillator ∧
    x.signalMap.isHardware u = .ok s.isHardware ∧
    x.signalMap.deviceKind u = .ok d.kind ∧
    ∀ ρ : Type, (Session.ofExperiment x : Session ρ).signal? u = some s

section Lookups

variable (x : Experiment) (u : SignalUid)

/-- An experiment finds the first declaration of a signal. -/
theorem signal?_eq : x.signal? u = (declarationsOf u x.signals).head? :=
  List.head?_filter.symm

/-- And the first kind that a device was declared with. -/
theorem device?_eq (uid : DeviceUid) :
    (x.device? uid).map Device.kind = (kindsOf uid x.devices).head? := by
  unfold device? kindsOf
  rw [List.head?_map, List.head?_filter]

/-- The signal map keeps the last declaration of a signal. -/
theorem signalMap_signals : x.signalMap.signals.get? u = (declarationsOf u x.signals).getLast? :=
  (Table.get?_collect _ _ _ _).trans Option.map_id'

/-- So does the session of the scheduler. -/
theorem session_signal? (ρ : Type) : (Session.ofExperiment x : Session ρ).signal? u =
    (declarationsOf u x.signals).getLast? :=
  (Table.get?_collect _ _ _ _).trans Option.map_id'

/-- The signal map keeps the last kind that a device was declared with. -/
theorem signalMap_devices (uid : DeviceUid) :
    x.signalMap.devices.get? uid = (kindsOf uid x.devices).getLast? := by
  unfold kindsOf
  rw [List.getLast?_map]
  exact Table.get?_collect _ _ _ _

end Lookups

/-- The kind of the device of a known signal. -/
theorem deviceKind_ok {m : SignalMap} {uid : SignalUid} {s : Signal} {kind : DeviceKind}
    (hs : m.signals.get? uid = some s) :
    m.deviceKind uid = .ok kind ↔ m.devices.get? s.device = some kind := by
  have hsignal := SignalMap.signal_ok.mpr hs
  simp only [SignalMap.deviceKind, hsignal, bind, Except.bind]
  cases m.devices.get? s.device with
  | none => simp
  | some found =>
      show Except.ok found = Except.ok kind ↔ _
      rw [Except.ok.injEq, Option.some.injEq]

/-- What the lookups tell agrees where the first and the last declaration are the same. -/
theorem lookupsAgree_iff {x : Experiment} {u : SignalUid} :
    x.LookupsAgree u ↔ ∃ s, (declarationsOf u x.signals).head? = some s ∧
      (declarationsOf u x.signals).getLast? = some s ∧
      ∃ kind, (kindsOf s.device x.devices).head? = some kind ∧
        (kindsOf s.device x.devices).getLast? = some kind := by
  rw [← signal?_eq, ← signalMap_signals]
  constructor
  · rintro ⟨s, d, hs, hd, -, -, hkind, hsession⟩
    have hlast : x.signalMap.signals.get? u = some s := by
      rw [signalMap_signals, ← session_signal? x u Unit]
      exact hsession Unit
    refine ⟨s, hs, hlast, d.kind, ?_, ?_⟩
    · rw [← device?_eq, hd]
      rfl
    · rw [← signalMap_devices]
      exact (deviceKind_ok hlast).mp hkind
  · rintro ⟨s, hs, hlast, kind, hfirst, hkind⟩
    rw [← device?_eq, Option.map_eq_some_iff] at hfirst
    obtain ⟨d, hd, rfl⟩ := hfirst
    have hsignal := SignalMap.signal_ok.mpr hlast
    refine ⟨s, d, hs, hd, ?_, ?_, ?_, fun ρ => ?_⟩
    · rw [SignalMap.oscillator, hsignal]
      rfl
    · rw [SignalMap.isHardware, hsignal]
      rfl
    · rw [deviceKind_ok hlast, signalMap_devices]
      exact hkind
    · rw [session_signal?, ← signalMap_signals]
      exact hlast

end Experiment

/-- The first and the last declaration of a signal are the same where they name the same device
    and the first one, if there are others, carries no oscillator. -/
theorem first_eq_last_iff {log : List Declared} {u : SignalUid} {s : Signal} :
    (declarationsIn log u).head? = some s ∧ (declarationsIn log u).getLast? = some s ↔
      s = ⟨u, s.device, (oscillatorsIn log u).getLast?⟩ ∧
      (signalDevicesIn log u).head? = some s.device ∧
      (signalDevicesIn log u).getLast? = some s.device ∧
      ((signalDevicesIn log u).length = 1 ∨ oscillatorsIn log u = []) := by
  unfold declarationsIn
  cases signalDevicesIn log u with
  | nil => simp
  | cons first rest =>
      rw [List.map_cons, List.modifyHead_cons, List.head?_cons, List.head?_cons]
      obtain rfl | ⟨between, last, rfl⟩ := List.eq_nil_or_concat rest
      · constructor
        · rintro ⟨hs, -⟩
          cases hs
          exact ⟨rfl, rfl, rfl, .inl rfl⟩
        · rintro ⟨hs, hd, -, -⟩
          rw [hs, ← Option.some.inj hd]
          exact ⟨rfl, rfl⟩
      · rw [List.concat_eq_append, List.map_append, List.map_singleton, ← List.cons_append,
          ← List.cons_append, List.getLast?_concat, List.getLast?_concat]
        constructor
        · rintro ⟨hs, hlast⟩
          cases hlast
          have hdevice : first = last := congrArg Signal.device (Option.some.inj hs)
          have hnone : (oscillatorsIn log u).getLast? = none :=
            congrArg Signal.oscillator (Option.some.inj hs)
          rw [hdevice, hnone]
          exact ⟨rfl, rfl, rfl, .inr (List.getLast?_eq_none_iff.mp hnone)⟩
        · rintro ⟨hs, hfirst, hlast, hone | hnone⟩
          · simp at hone
          · rw [hs, ← Option.some.inj hfirst, hnone, Option.some.inj hfirst,
              ← Option.some.inj hlast]
            exact ⟨rfl, rfl⟩

/-- The device of a signal that is held was declared, so it has a kind. -/
theorem Records.exists_kind {log : List Declared} {b : Builder} (h : Records log b) {s : Signal}
    (hs : s ∈ b.signals) : ∃ kind, (kindsOf s.device b.devices).head? = some kind := by
  obtain ⟨d, hd, huid⟩ := List.mem_map.mp (h.known s.device (List.mem_map_of_mem hs))
  have hmem : d.kind ∈ kindsOf s.device b.devices :=
    List.mem_map_of_mem (List.mem_filter.mpr ⟨hd, decide_eq_true huid⟩)
  exact ⟨_, List.head?_eq_some_head (List.ne_nil_of_mem hmem)⟩

/-- After any declarations that succeed, what the lookups tell of a declared signal agrees if and
    only if its first and its last declaration name the same device, the first and the last
    declaration of this device give it the same kind, and the signal is declared only once if an
    oscillator lists it. -/
theorem lookups_agree_iff {ds : List Declaration} {log : List Declared} {b : Builder}
    (h : Builder.empty.declareAll ds = .ok (log, b)) (root : Option Node) (u : SignalUid) :
    (b.build root).LookupsAgree u ↔ ∃ device,
      (signalDevicesIn log u).head? = some device ∧
      (signalDevicesIn log u).getLast? = some device ∧
      (kindsIn log device).head? = (kindsIn log device).getLast? ∧
      ((signalDevicesIn log u).length = 1 ∨ oscillatorsIn log u = []) := by
  have hb : Records log b := records_empty.declareAll h
  have hkinds : ∀ device, kindsOf device b.devices = kindsIn log device := fun device => by
    rw [hb.devices]
    rfl
  rw [Experiment.lookupsAgree_iff]
  show (∃ s, (declarationsOf u b.signals).head? = some s ∧
      (declarationsOf u b.signals).getLast? = some s ∧
      ∃ kind, (kindsOf s.device b.devices).head? = some kind ∧
        (kindsOf s.device b.devices).getLast? = some kind) ↔ _
  rw [hb.signals u]
  constructor
  · rintro ⟨s, hfirst, hlast, kind, hkind, hkind'⟩
    obtain ⟨-, hd, hd', hone⟩ := first_eq_last_iff.mp ⟨hfirst, hlast⟩
    refine ⟨s.device, hd, hd', ?_, hone⟩
    rw [← hkinds, hkind, hkind']
  · rintro ⟨device, hd, hd', hkind, hone⟩
    obtain ⟨hfirst, hlast⟩ := first_eq_last_iff.mpr
      (⟨rfl, hd, hd', hone⟩ : (⟨u, device, (oscillatorsIn log u).getLast?⟩ : Signal) = _ ∧ _)
    refine ⟨_, hfirst, hlast, ?_⟩
    have hmem : ⟨u, device, (oscillatorsIn log u).getLast?⟩ ∈ declarationsOf u b.signals := by
      rw [hb.signals u]
      exact List.mem_of_head? hfirst
    obtain ⟨kind, hkind'⟩ := hb.exists_kind (List.mem_filter.mp hmem).1
    refine ⟨kind, hkind', ?_⟩
    rw [hkinds] at hkind' ⊢
    exact hkind ▸ hkind'

/-- A device declared twice with the same kind, and a signal retuned by a second oscillator. -/
def retuned : List Declaration :=
  [.device "shfsg_0" .shfsg, .device "shfsg_0" .shfsg, .signal "q0/drive" ⟨⟨0⟩⟩,
    .oscillator "q0/hw" .hardware [⟨⟨1⟩⟩, ⟨⟨1⟩⟩], .oscillator "q0/sw" .software [⟨⟨1⟩⟩]]

/-- An oscillator that lists a signal anew takes the place of the other; all find the new one. -/
theorem retuned_agrees : ∃ log b, Builder.empty.declareAll retuned = .ok (log, b) ∧
    (b.build none).LookupsAgree ⟨⟨1⟩⟩ :=
  ⟨_, _, rfl, (lookups_agree_iff (rfl : Builder.empty.declareAll retuned = _) none ⟨⟨1⟩⟩).mpr
    ⟨⟨⟨0⟩⟩, by decide, by decide, by decide, by decide⟩⟩

/-- A signal declared twice on one device, then modulated in hardware. -/
def redeclared : List Declaration :=
  [.device "shfsg_0" .shfsg, .signal "q0/drive" ⟨⟨0⟩⟩, .signal "q0/drive" ⟨⟨0⟩⟩,
    .oscillator "q0/hw" .hardware [⟨⟨1⟩⟩]]

/-- The experiment has the signal modulated in hardware, the signal map has it in software. -/
theorem redeclared_disagrees : ∃ log b s, Builder.empty.declareAll redeclared = .ok (log, b) ∧
    signalDevicesIn log ⟨⟨1⟩⟩ ≠ [] ∧
    (b.build none).signal? ⟨⟨1⟩⟩ = some s ∧ s.isHardware = true ∧
    (b.build none).signalMap.isHardware ⟨⟨1⟩⟩ = .ok false ∧
    ¬ (b.build none).LookupsAgree ⟨⟨1⟩⟩ := by
  refine ⟨_, _, _, rfl, by decide, rfl, by decide, rfl, ?_⟩
  rintro ⟨s, d, hs, -, -, hhardware, -⟩
  cases hs
  cases hhardware

end PulseTimeline
