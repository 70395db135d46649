/-
  A builder keeps oscillators and signals linked.

  1. **Faults** — `Declaration.Fault log d e` says from what was declared before that the call `d` is
     out of order.  A builder that holds what the log says refuses just these calls
     (`Records.declare_error`), and a series of calls stops at the first of them
     (`Builder.declareAll_error`).

  2. **Answers** — every call that succeeds declares what it was asked for, under the id of the name
     that it was given (`Declaration.AnsweredBy`).  Names interned later do not change this, so that
     within one store equal ids are equal names.

  3. **Links** — every signal's device is declared, no signal carries an oscillator that does not
     list it, and a lookup finds the oscillator that listed the signal last (`Linked`).  Any
     declarations leave this (`declarations_linked`).
-/
import Mathlib.Data.List.Forall2
import PulseTimeline.Proofs.Declarations

namespace PulseTimeline

/-! ## Faults -/

/-- The call `d` is out of order after the declarations of the log. -/
inductive Declaration.Fault (log : List Declared) : Declaration → DeclarationError → Prop
  | deviceMissing {name : String} {device : DeviceUid}
      (missing : ∀ kind, .device ⟨device, kind⟩ ∉ log) :
      Fault log (.signal name device) (.deviceMissing name)
  | signalMissing {name : String} {kind : OscillatorKind} {signals : List SignalUid}
      {uid : SignalUid} (listed : uid ∈ signals) (missing : ∀ device, .signal uid device ∉ log) :
      Fault log (.oscillator name kind signals) .signalMissing

theorem mem_devicesIn {log : List Declared} {d : Device} : d ∈ devicesIn log ↔ .device d ∈ log := by
  unfold devicesIn
  rw [List.mem_filterMap]
  constructor
  · rintro ⟨what, hwhat, hd⟩
    cases what <;> cases hd
    exact hwhat
  · exact fun hd => ⟨_, hd, rfl⟩

/-- A signal without devices in the log was not declared. -/
theorem signalDevicesIn_eq_nil {log : List Declared} {u : SignalUid} :
    signalDevicesIn log u = [] ↔ ∀ device, .signal u device ∉ log := by
  unfold signalDevicesIn
  rw [List.filterMap_eq_nil_iff]
  constructor
  · intro h device hmem
    have hnone := h _ hmem
    rw [Declared.deviceOf?, if_pos rfl] at hnone
    cases hnone
  · intro h what hwhat
    cases what with
    | signal uid device =>
        refine if_neg fun heq => ?_
        subst heq
        exact h device hwhat
    | name _ | device _ | oscillator _ => rfl

/-- An oscillator found for a signal lists that signal. -/
theorem mem_oscillatorsIn {log : List Declared} {u : SignalUid} {o : Oscillator}
    (h : o ∈ oscillatorsIn log u) : u ∈ o.signals := by
  obtain ⟨what, -, ho⟩ := List.mem_filterMap.mp h
  cases what with
  | oscillator o' =>
      simp only [Declared.oscillatorOf?] at ho
      split at ho
      · rename_i hlisted
        cases ho
        exact hlisted
      · cases ho
  | name _ | device _ | signal _ _ => cases ho

/-- Attaching adds no declaration and takes none away. -/
theorem Attached.declarationsOf_eq_nil {o : Oscillator} {uids : List SignalUid}
    {before after : List Signal} (h : Attached o uids before after) {u : SignalUid} :
    declarationsOf u after = [] ↔ declarationsOf u before = [] := by
  rw [h.declarations]
  split <;> simp

namespace Builder

variable {o : Oscillator} {signals : List Signal}

/-- Attaching fails for a signal without a declaration. -/
theorem attach_eq_none {uid : SignalUid} :
    attach o uid signals = none ↔ declarationsOf uid signals = [] := by
  induction signals with
  | nil => exact iff_of_true rfl rfl
  | cons s rest ih =>
      unfold declarationsOf at ih ⊢
      by_cases hs : s.uid = uid
      · simp [attach, hs]
      · simp [attach, hs, ih]

/-- Attaching fails if and only if some listed signal has no declaration. -/
theorem attachAll_eq_none {uids : List SignalUid} :
    attachAll o uids signals = none ↔ ∃ u ∈ uids, declarationsOf u signals = [] := by
  induction uids generalizing signals with
  | nil => exact iff_of_false nofun fun ⟨_, hu, _⟩ => nomatch hu
  | cons uid uids ih =>
      have hcons : attachAll o (uid :: uids) signals =
          (attach o uid signals).bind (attachAll o uids) := List.foldlM_cons
      rw [hcons]
      cases hattach : attach o uid signals with
      | none => exact iff_of_true rfl ⟨uid, List.mem_cons_self, attach_eq_none.mp hattach⟩
      | some between =>
          have hattached := Attached.of_attach hattach
          have hdeclared : declarationsOf uid signals ≠ [] :=
            hattached.listed uid List.mem_cons_self
          show attachAll o uids between = none ↔ _
          rw [List.exists_mem_cons_iff, or_iff_right hdeclared, ih]
          simp only [hattached.declarationsOf_eq_nil]

end Builder

section Order

variable {log : List Declared} {b : Builder} (h : Records log b)
include h

/-- The devices of the builder are those declared in the log. -/
theorem Records.any_device {device : DeviceUid} :
    (b.devices.any fun d => d.uid = device) = true ↔ ∃ kind, .device ⟨device, kind⟩ ∈ log := by
  rw [List.any_eq_true, h.devices]
  constructor
  · rintro ⟨d, hd, huid⟩
    obtain rfl := of_decide_eq_true huid
    exact ⟨d.kind, mem_devicesIn.mp hd⟩
  · rintro ⟨kind, hmem⟩
    exact ⟨_, mem_devicesIn.mpr hmem, decide_eq_true rfl⟩

/-- An oscillator cannot be attached if one of its signals was not declared. -/
theorem Records.attachAll_eq_none {o : Oscillator} {uids : List SignalUid} :
    Builder.attachAll o uids b.signals = none ↔
      ∃ u ∈ uids, ∀ device, .signal u device ∉ log := by
  simp only [Builder.attachAll_eq_none, h.signals, declarationsIn_eq_nil, signalDevicesIn_eq_nil]

/-- Exactly the calls out of order fail. -/
theorem Records.declare_error {d : Declaration} {e : DeclarationError} :
    b.declare d = .error e ↔ d.Fault log e := by
  constructor
  · intro he
    cases d with
    | name noun text => cases he
    | device name kind => cases he
    | signal name device =>
        simp only [Builder.declare, Builder.signal] at he
        split at he
        · cases he
        · rename_i hany
          cases he
          exact .deviceMissing fun kind hmem => hany (h.any_device.mpr ⟨kind, hmem⟩)
    | oscillator name kind uids =>
        simp only [Builder.declare, Builder.oscillator] at he
        split at he
        · cases he
        · rename_i hnone
          cases he
          obtain ⟨u, hlisted, hmissing⟩ := h.attachAll_eq_none.mp hnone
          exact .signalMissing hlisted hmissing
  · intro hfault
    cases hfault with
    | @deviceMissing name device hmissing =>
        have hnot : ¬ (b.devices.any fun d => d.uid = device) = true := fun hany =>
          (h.any_device.mp hany).elim hmissing
        simp only [Builder.declare, Builder.signal, if_neg hnot]
        rfl
    | @signalMissing name kind uids uid hlisted hmissing =>
        have hnone : ∀ o, Builder.attachAll o uids b.signals = none := fun o =>
          h.attachAll_eq_none.mpr ⟨uid, hlisted, hmissing⟩
        simp only [Builder.declare, Builder.oscillator, Builder.uid, hnone]
        rfl

end Order

namespace Builder

variable {b b' : Builder} {log : List Declared} {d : Declaration} {e : DeclarationError}

/-- A call that fails ends the series. -/
theorem declareAll_of_error {before : List Declaration}
    (hbefore : b.declareAll before = .ok (log, b')) (hd : b'.declare d = .error e)
    (after : List Declaration) : b.declareAll (before ++ d :: after) = .error e := by
  induction before generalizing b log with
  | nil =>
      cases hbefore
      show (declare _ d >>= _) = _
      rw [hd]
      rfl
  | cons c before ih =>
      obtain ⟨⟨what, between⟩, hc, hrest⟩ := bind_ok hbefore
      obtain ⟨⟨rest, last⟩, hrest, hlast⟩ := bind_ok hrest
      cases hlast
      show (b.declare c >>= fun r => r.2.declareAll (before ++ d :: after) >>= _) = _
      rw [hc]
      show (between.declareAll (before ++ d :: after) >>= _) = _
      rw [ih hrest]
      rfl

/-- A series fails only at a call that fails. -/
theorem exists_error_of_declareAll {ds : List Declaration} (h : b.declareAll ds = .error e) :
    ∃ before d after log b', ds = before ++ d :: after ∧
      b.declareAll before = .ok (log, b') ∧ b'.declare d = .error e := by
  induction ds generalizing b with
  | nil => cases h
  | cons c ds ih =>
      change (b.declare c >>= fun r => r.2.declareAll ds >>= _) = _ at h
      -- Either the first call fails, or a later one does after it.
      cases hc : b.declare c with
      | error e' =>
          rw [hc] at h
          cases h
          exact ⟨[], c, ds, [], b, rfl, rfl, hc⟩
      | ok first =>
          obtain ⟨what, between⟩ := first
          rw [hc] at h
          change (between.declareAll ds >>= _) = _ at h
          have hrest : between.declareAll ds = .error e := by
            cases hds : between.declareAll ds with
            | error e' =>
                rw [hds] at h
                exact h
            | ok rest =>
                rw [hds] at h
                cases h
          obtain ⟨before, d, after, log, b', rfl, hbefore, hd⟩ := ih hrest
          refine ⟨c :: before, d, after, what :: log, b', rfl, ?_, hd⟩
          show (b.declare c >>= fun r => r.2.declareAll before >>= _) = _
          rw [hc]
          show (between.declareAll before >>= _) = _
          rw [hbefore]
          rfl

/-- A series of calls stops at the first call out of order. -/
theorem declareAll_error {ds : List Declaration} : empty.declareAll ds = .error e ↔
    ∃ before d after log b, ds = before ++ d :: after ∧
      empty.declareAll before = .ok (log, b) ∧ d.Fault log e := by
  constructor
  · intro h
    obtain ⟨before, d, after, log, b, hds, hbefore, hd⟩ := exists_error_of_declareAll h
    have hb : Records log b := records_empty.declareAll hbefore
    exact ⟨before, d, after, log, b, hds, hbefore, hb.declare_error.mp hd⟩
  · rintro ⟨before, d, after, log, b, rfl, hbefore, hfault⟩
    have hb : Records log b := records_empty.declareAll hbefore
    exact declareAll_of_error hbefore (hb.declare_error.mpr hfault) after

end Builder

/-! ## Answers -/

/-- The call was answered by the object that it asks for, whose id is that of its name. -/
inductive Declaration.AnsweredBy (store : NameStore) : Declaration → Declared → Prop
  | name (noun : Noun) {text : String} {id : NameId} (named : store.resolve? id = some text) :
      AnsweredBy store (.name noun text) (.name id)
  | device (kind : DeviceKind) {name : String} {uid : DeviceUid}
      (named : store.resolve? uid.id = some name) :
      AnsweredBy store (.device name kind) (.device ⟨uid, kind⟩)
  | signal (device : DeviceUid) {name : String} {uid : SignalUid}
      (named : store.resolve? uid.id = some name) :
      AnsweredBy store (.signal name device) (.signal uid device)
  | oscillator (kind : OscillatorKind) (signals : List SignalUid) {name : String}
      {uid : OscillatorUid} (named : store.resolve? uid.id = some name) :
      AnsweredBy store (.oscillator name kind signals) (.oscillator ⟨uid, kind, signals⟩)

/-- The names of a store are known under the same ids in another one. -/
def NameStore.KeptIn (s t : NameStore) : Prop :=
  ∀ id name, s.resolve? id = some name → t.resolve? id = some name

/-- Interning keeps the names there are. -/
theorem NameStore.keptIn_intern (s : NameStore) (name : String) : s.KeptIn (s.intern name).2 :=
  fun _ _ h => resolve?_intern_of_resolve? name h

theorem Declaration.AnsweredBy.mono {s t : NameStore} {d : Declaration} {what : Declared}
    (h : d.AnsweredBy s what) (hkept : s.KeptIn t) : d.AnsweredBy t what := by
  cases h with
  | name noun named => exact .name noun (hkept _ _ named)
  | device kind named => exact .device kind (hkept _ _ named)
  | signal device named => exact .signal device (hkept _ _ named)
  | oscillator kind signals named => exact .oscillator kind signals (hkept _ _ named)

/-- What a call answers, and which names are known after it. -/
theorem Builder.declare_answered {b b' : Builder} {d : Declaration} {what : Declared}
    (h : b.declare d = .ok (what, b')) :
    d.AnsweredBy b'.names what ∧ b.names.KeptIn b'.names := by
  cases d with
  | name noun text =>
      cases h
      exact ⟨.name noun (b.names.resolve?_intern text), b.names.keptIn_intern text⟩
  | device name kind =>
      cases h
      exact ⟨.device kind (b.names.resolve?_intern name), b.names.keptIn_intern name⟩
  | signal name device =>
      simp only [declare, signal] at h
      split at h
      · cases h
        exact ⟨.signal device (b.names.resolve?_intern name), b.names.keptIn_intern name⟩
      · cases h
  | oscillator name kind signals =>
      simp only [declare, oscillator] at h
      split at h
      · cases h
        exact ⟨.oscillator kind signals (b.names.resolve?_intern name), b.names.keptIn_intern name⟩
      · cases h

/-- Every call of a run is answered under its names, and the answers stay valid. -/
theorem Builder.declareAll_answered {b b' : Builder} {ds : List Declaration} {log : List Declared}
    (h : b.declareAll ds = .ok (log, b')) :
    List.Forall₂ (Declaration.AnsweredBy b'.names) ds log ∧ b.names.KeptIn b'.names := by
  induction ds generalizing b log with
  | nil =>
      cases h
      exact ⟨.nil, fun _ _ hname => hname⟩
  | cons d ds ih =>
      obtain ⟨⟨what, between⟩, hd, hds⟩ := bind_ok h
      obtain ⟨⟨rest, last⟩, hrest, hlast⟩ := bind_ok hds
      cases hlast
      obtain ⟨hanswer, hkept⟩ := declare_answered hd
      obtain ⟨hanswers, hkept'⟩ := ih hrest
      exact ⟨.cons (hanswer.mono hkept') hanswers, fun id name hname =>
        hkept' id name (hkept id name hname)⟩

/-! ## Links -/

/-- What the lookups of an experiment tell of signals and oscillators, given what was declared. -/
structure Linked (log : List Declared) (x : Experiment) : Prop where
  /-- The device of every signal is declared. -/
  device : ∀ s ∈ x.signals, ∃ d, x.device? s.device = some d
  /-- A signal carries no oscillator that does not list it. -/
  listed : ∀ s ∈ x.signals, ∀ o, s.oscillator = some o → s.uid ∈ o.signals
  /-- A declared signal is found with the oscillator that listed it last, if one did. -/
  last : ∀ u device, .signal u device ∈ log →
    ∃ s, x.signal? u = some s ∧ s.oscillator = (oscillatorsIn log u).getLast?

theorem oscillator_of_mem_declarationsIn {log : List Declared} {u : SignalUid} {s : Signal}
    (hs : s ∈ declarationsIn log u) {o : Oscillator} (ho : s.oscillator = some o) :
    (oscillatorsIn log u).getLast? = some o := by
  unfold declarationsIn at hs
  cases hdevices : signalDevicesIn log u with
  | nil =>
      rw [hdevices] at hs
      cases hs
  | cons first rest =>
      rw [hdevices, List.map_cons, List.modifyHead_cons] at hs
      rcases List.mem_cons.mp hs with rfl | hs
      · exact ho
      · obtain ⟨device, -, rfl⟩ := List.mem_map.mp hs
        cases ho

/-- A builder that agrees with the log makes an experiment linked as the log says. -/
theorem Records.linked {log : List Declared} {b : Builder} (h : Records log b)
    (root : Option Node) : Linked log (b.build root) where
  device := fun s hs => by
    obtain ⟨kind, hkind⟩ := h.exists_kind hs
    have hfound := (Experiment.device?_eq (b.build root) s.device).trans hkind
    obtain ⟨d, hd, -⟩ := Option.map_eq_some_iff.mp hfound
    exact ⟨d, hd⟩
  -- A signal may be declared more than once; this holds of all its declarations.
  listed := fun s hs o ho => by
    have hmem : s ∈ declarationsIn log s.uid := by
      rw [← h.signals]
      exact List.mem_filter.mpr ⟨hs, decide_eq_true rfl⟩
    exact mem_oscillatorsIn (List.mem_of_getLast? (oscillator_of_mem_declarationsIn hmem ho))
  last := fun u device hdeclared => by
    have hlookup : (b.build root).signal? u = (declarationsIn log u).head? := by
      rw [Experiment.signal?_eq, ← h.signals]
      rfl
    have hdevices : signalDevicesIn log u ≠ [] := fun hnil =>
      signalDevicesIn_eq_nil.mp hnil device hdeclared
    obtain ⟨first, rest, hdevices⟩ := List.exists_cons_of_ne_nil hdevices
    rw [hlookup]
    unfold declarationsIn
    rw [hdevices, List.map_cons, List.modifyHead_cons]
    exact ⟨_, rfl, rfl⟩

/-- For every series of calls: it fails if and only if one of them is out of order, and then as
    this call does.  If none is, every call has declared what it was asked for, further calls fail
    if and only if they are out of order, and in the built experiment oscillators and signals are
    linked. -/
theorem declarations_linked (ds : List Declaration) :
    (∀ e, Builder.empty.declareAll ds = .error e ↔
      ∃ before d after log b, ds = before ++ d :: after ∧
        Builder.empty.declareAll before = .ok (log, b) ∧ d.Fault log e) ∧
    ∀ log b, Builder.empty.declareAll ds = .ok (log, b) →
      List.Forall₂ (Declaration.AnsweredBy b.names) ds log ∧
      (∀ d e, b.declare d = .error e ↔ d.Fault log e) ∧
      ∀ root, Linked log (b.build root) := by
  refine ⟨fun e => Builder.declareAll_error, fun log b h => ?_⟩
  have hb : Records log b := records_empty.declareAll h
  exact ⟨(Builder.declareAll_answered h).1, fun d e => hb.declare_error, hb.linked⟩

/-- A line declared twice, two lines at one oscillator, then one of them at another. -/
def detached : List Declaration :=
  [.device "shfsg_0" .shfsg, .signal "q0/drive" ⟨⟨0⟩⟩, .signal "q1/drive" ⟨⟨0⟩⟩,
    .signal "q0/drive" ⟨⟨0⟩⟩, .oscillator "shared" .hardware [⟨⟨1⟩⟩, ⟨⟨2⟩⟩],
    .oscillator "own" .software [⟨⟨2⟩⟩, ⟨⟨2⟩⟩]]

/-- What these calls declare. -/
def detachedLog : List Declared :=
  [.device ⟨⟨⟨0⟩⟩, .shfsg⟩, .signal ⟨⟨1⟩⟩ ⟨⟨0⟩⟩, .signal ⟨⟨2⟩⟩ ⟨⟨0⟩⟩, .signal ⟨⟨1⟩⟩ ⟨⟨0⟩⟩,
    .oscillator ⟨⟨⟨3⟩⟩, .hardware, [⟨⟨1⟩⟩, ⟨⟨2⟩⟩]⟩, .oscillator ⟨⟨⟨4⟩⟩, .software, [⟨⟨2⟩⟩, ⟨⟨2⟩⟩]⟩]

/-- One line keeps the oscillator that both had.  A line is no device, and an oscillator no
    line. -/
theorem detached_linked : ∃ b, Builder.empty.declareAll detached = .ok (detachedLog, b) ∧
    Linked detachedLog (b.build none) ∧
    ((b.build none).signal? ⟨⟨1⟩⟩).map Signal.oscillator =
      some (some ⟨⟨⟨3⟩⟩, .hardware, [⟨⟨1⟩⟩, ⟨⟨2⟩⟩]⟩) ∧
    ((b.build none).signal? ⟨⟨2⟩⟩).map Signal.oscillator =
      some (some ⟨⟨⟨4⟩⟩, .software, [⟨⟨2⟩⟩, ⟨⟨2⟩⟩]⟩) ∧
    b.declare (.signal "q2/drive" ⟨⟨1⟩⟩) = .error (.deviceMissing "q2/drive") ∧
    b.declare (.oscillator "late" .software [⟨⟨1⟩⟩, ⟨⟨4⟩⟩]) = .error .signalMissing := by
  have hrun : ∃ b, Builder.empty.declareAll detached = .ok (detachedLog, b) := ⟨_, rfl⟩
  obtain ⟨b, hrun⟩ := hrun
  obtain ⟨-, hfault, hlinked⟩ := (declarations_linked detached).2 _ _ hrun
  have hlast : ∀ u device, .signal u device ∈ detachedLog →
      ((b.build none).signal? u).map Signal.oscillator =
        some (oscillatorsIn detachedLog u).getLast? := fun u device hdeclared => by
    obtain ⟨s, hs, ho⟩ := (hlinked none).last u device hdeclared
    rw [hs, ← ho]
    rfl
  refine ⟨b, hrun, hlinked none, hlast ⟨⟨1⟩⟩ ⟨⟨0⟩⟩ (by simp [detachedLog]),
    hlast ⟨⟨2⟩⟩ ⟨⟨0⟩⟩ (by simp [detachedLog]), (hfault _ _).mpr (.deviceMissing ?_),
    (hfault _ _).mpr (.signalMissing (List.mem_of_getLast? rfl) ?_)⟩
  · simp [detachedLog]
  · simp [detachedLog]

end PulseTimeline
