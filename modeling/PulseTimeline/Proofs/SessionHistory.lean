/-
  What a session remembers of its history.

  1. **Calls** — a session is used by four kinds of calls in any order (`Call`).  Every call is
     answered; a call that is refused leaves the session as it was (`perform`).

  2. **History** — what should be remembered, read off the list of calls alone: the acquisitions
     since the last reset, and the reports on each signal over the whole list.

  3. **Memory** — `Remembers` is the invariant: the session holds what the list of calls says.  One
     call keeps it (`Remembers.perform`), hence a whole history does (`remembers_run`).

  4. **Law** — what a session shows after any history, and how it answers the next call
     (`session_history`).
-/
import Mathlib.Data.List.DropRight
import PulseTimeline.Schedule.Session

namespace PulseTimeline.Session

variable {ρ : Type}

/-! ## Calls -/

/-- A call of a session that may change it or have an effect. -/
inductive Call (ρ : Type)
  | acquire (pulse : PulseSchedule)
  | warn (uid : SignalUid) (report : List String → ρ) (argument : String)
  | emit
  | reset

/-- How a call is answered. -/
inductive Answer (ρ : Type)
  | done
  | refused (error : ScheduleError)
  /-- What the reports yield, one after the other. -/
  | emitted (reports : List ρ)

/-- The session after a call, and the answer. -/
def perform (s : Session ρ) : Call ρ → Session ρ × Answer ρ
  | .acquire pulse =>
      match s.addAcquisition pulse with
      | .ok after => (after, .done)
      | .error error => (s, .refused error)
  | .warn uid report argument => (s.warn uid report argument, .done)
  | .emit => (s, .emitted s.emit)
  | .reset => (s.reset, .done)

/-- The session after a list of calls, and the answers. -/
def run (s : Session ρ) : List (Call ρ) → Session ρ × List (Answer ρ)
  | [] => (s, [])
  | c :: calls =>
      let (after, answer) := s.perform c
      let (last, answers) := after.run calls
      (last, answer :: answers)

/-- Calls may be made in two goes: the second one begins where the first one ended. -/
theorem run_append (s : Session ρ) (before after : List (Call ρ)) :
    s.run (before ++ after) =
      (((s.run before).1.run after).1, (s.run before).2 ++ ((s.run before).1.run after).2) := by
  induction before generalizing s with
  | nil => rfl
  | cons c before ih => simp only [List.cons_append, run, ih]

/-- Every call has an answer. -/
theorem length_answers (s : Session ρ) (calls : List (Call ρ)) :
    (s.run calls).2.length = calls.length := by
  induction calls generalizing s with
  | nil => rfl
  | cons c calls ih => exact congrArg Nat.succ (ih (s.perform c).1)

/-! ## History -/

namespace Call

/-- Whether a new run begins. -/
def isReset : Call ρ → Bool
  | .reset => true
  | _ => false

/-- The pulse that is added to the acquisitions on a signal. -/
def acquisitionOn? (uid : SignalUid) : Call ρ → Option PulseSchedule
  | .acquire pulse => if pulse.handle.isSome ∧ pulse.signal = uid then some pulse else none
  | _ => none

/-- The signal that is warned about. -/
def warned? : Call ρ → Option SignalUid
  | .warn uid _ _ => some uid
  | _ => none

/-- The report and the argument of a warning about a signal. -/
def warningOn? (uid : SignalUid) : Call ρ → Option ((List String → ρ) × String)
  | .warn uid' report argument => if uid' = uid then some (report, argument) else none
  | _ => none

end Call

/-- The acquisitions on a signal since the last reset, in the order of the calls. -/
def acquisitionsIn (calls : List (Call ρ)) (uid : SignalUid) : List PulseSchedule :=
  (calls.rtakeWhile fun c => !c.isReset).filterMap (Call.acquisitionOn? uid)

/-- The warnings about a signal, in the order of the calls. -/
def warningsIn (calls : List (Call ρ)) (uid : SignalUid) : List ((List String → ρ) × String) :=
  calls.filterMap (Call.warningOn? uid)

/-- The signals that are warned about, each once, in the order in which they first came up. -/
def warnedIn (calls : List (Call ρ)) : List SignalUid := (calls.filterMap Call.warned?).eraseDups

/-- Warnings combined into one: the report of the first, the arguments of all. -/
def combine : List ((List String → ρ) × String) → Option (CombinedWarning ρ)
  | [] => none
  | (report, argument) :: rest => some ⟨report, argument :: rest.map Prod.snd⟩

/-- One warning more adds its argument to the warning there is, or is the first one. -/
theorem combine_append (ws : List ((List String → ρ) × String)) (report : List String → ρ)
    (argument : String) : combine (ws ++ [(report, argument)]) =
      match combine ws with
      | some w => some { w with arguments := w.arguments ++ [argument] }
      | none => some ⟨report, [argument]⟩ := by
  cases ws with
  | nil => rfl
  | cons w rest => simp [combine]

/-! ### One call more -/

/-- One call more: a new run forgets the acquisitions, and an accepted one comes last. -/
theorem acquisitionsIn_concat (calls : List (Call ρ)) (c : Call ρ) (uid : SignalUid) :
    acquisitionsIn (calls ++ [c]) uid =
      if c.isReset then [] else acquisitionsIn calls uid ++ (c.acquisitionOn? uid).toList := by
  unfold acquisitionsIn
  rw [List.rtakeWhile_concat]
  cases c.isReset with
  | true => rfl
  | false => exact filterMap_concat _ _ c

/-- A call that neither resets nor adds an acquisition leaves the acquisitions. -/
theorem acquisitionsIn_other (calls : List (Call ρ)) {c : Call ρ} {uid : SignalUid}
    (hreset : c.isReset = false) (h : c.acquisitionOn? uid = none) :
    acquisitionsIn (calls ++ [c]) uid = acquisitionsIn calls uid := by
  rw [acquisitionsIn_concat, hreset, h]
  exact List.append_nil _

/-- One call more: a warning about the signal comes last. -/
theorem warningsIn_concat (calls : List (Call ρ)) (c : Call ρ) (uid : SignalUid) :
    warningsIn (calls ++ [c]) uid = warningsIn calls uid ++ (c.warningOn? uid).toList :=
  filterMap_concat _ _ c

/-- One call more: a signal that is warned about for the first time comes last. -/
theorem warnedIn_concat (calls : List (Call ρ)) (c : Call ρ) :
    warnedIn (calls ++ [c]) =
      match c.warned? with
      | some uid =>
          if uid ∈ warnedIn calls then warnedIn calls else warnedIn calls ++ [uid]
      | none => warnedIn calls := by
  unfold warnedIn
  rw [filterMap_concat]
  cases c.warned? with
  | none => rw [Option.toList_none, List.append_nil]
  | some uid => exact eraseDups_concat _ uid

/-! ## Memory -/

/-- The session `s` is what the calls made of the session `init`. -/
structure Remembers (init s : Session ρ) (calls : List (Call ρ)) : Prop where
  acquisitions : ∀ uid, s.acquisitionsOn uid = acquisitionsIn calls uid
  warnings : ∀ uid, s.warning? uid = combine (warningsIn calls uid)
  warned : s.warnings.keys = warnedIn calls
  signals : s.signals = init.signals
  rates : s.rates = init.rates

/-- A call that does not warn leaves the warnings. -/
theorem Remembers.unwarned {init s s' : Session ρ} {calls : List (Call ρ)} {c : Call ρ}
    (h : Remembers init s calls) (hc : c.warned? = none) (hw : s'.warnings = s.warnings)
    (hs : s'.signals = s.signals) (hr : s'.rates = s.rates)
    (ha : ∀ uid, s'.acquisitionsOn uid = acquisitionsIn (calls ++ [c]) uid) :
    Remembers init s' (calls ++ [c]) where
  acquisitions := ha
  warnings := fun uid => by
    have hon : c.warningOn? uid = none := by cases c <;> first | rfl | cases hc
    rw [warningsIn_concat, hon, Option.toList_none, List.append_nil, ← h.warnings uid]
    unfold warning?
    rw [hw]
  warned := by
    rw [warnedIn_concat, hc, hw]
    exact h.warned
  signals := hs.trans h.signals
  rates := hr.trans h.rates

/-- One call keeps the session in step with the history of calls. -/
theorem Remembers.perform {init s : Session ρ} {calls : List (Call ρ)}
    (h : Remembers init s calls) (c : Call ρ) :
    Remembers init (s.perform c).1 (calls ++ [c]) := by
  cases c with
  | reset =>
      refine h.unwarned rfl rfl rfl rfl fun uid => ?_
      rw [acquisitionsIn_concat]
      rfl
  | emit =>
      refine h.unwarned rfl rfl rfl rfl fun uid => ?_
      rw [acquisitionsIn_other calls rfl rfl]
      exact h.acquisitions uid
  | acquire pulse =>
      by_cases hp : pulse.handle.isSome
      · have hadd : s.perform (.acquire pulse) =
            ({ s with acquisitions :=
                s.acquisitions.alter pulse.signal fun ps => ps.getD [] ++ [pulse] }, .done) := by
          simp only [Session.perform, addAcquisition, PulseSchedule.isAcquisition, hp, if_true]
        rw [hadd]
        refine h.unwarned rfl rfl rfl rfl fun uid => ?_
        rw [acquisitionsIn_concat, ← h.acquisitions uid]
        show ((s.acquisitions.alter _ _).get? uid).getD [] = (s.acquisitions.get? uid).getD [] ++
          (if pulse.handle.isSome ∧ pulse.signal = uid then some pulse else none).toList
        rw [Table.get?_alter]
        by_cases hu : pulse.signal = uid
        · rw [if_pos hu.symm, if_pos ⟨hp, hu⟩, hu]
          rfl
        · rw [if_neg fun he => hu he.symm, if_neg fun hpu => hu hpu.2, Option.toList_none,
            List.append_nil]
      · have href : s.perform (.acquire pulse) = (s, .refused (.notAnAcquisition pulse.signal)) := by
          simp only [Session.perform, addAcquisition, PulseSchedule.isAcquisition, hp,
            Bool.false_eq_true, if_false]
        rw [href]
        refine h.unwarned rfl rfl rfl rfl fun uid => ?_
        have hnone : Call.acquisitionOn? uid (.acquire pulse : Call ρ) = none :=
          if_neg fun hpu => hp hpu.1
        rw [acquisitionsIn_other calls rfl hnone]
        exact h.acquisitions uid
  | warn uid report argument =>
      constructor
      case acquisitions =>
        intro u
        rw [acquisitionsIn_other calls rfl rfl]
        exact h.acquisitions u
      case warnings =>
        intro u
        rw [warningsIn_concat]
        show (s.warnings.alter uid _).get? u = combine (_ ++
          (if uid = u then some (report, argument) else none).toList)
        rw [Table.get?_alter]
        by_cases hu : u = uid
        · subst hu
          rw [if_pos rfl, if_pos rfl, Option.toList_some, combine_append, ← h.warnings u]
          unfold warning?
          cases s.warnings.get? u <;> rfl
        · rw [if_neg hu, if_neg fun he => hu he.symm, Option.toList_none, List.append_nil]
          exact h.warnings u
      case warned =>
        rw [warnedIn_concat, ← h.warned]
        exact Table.keys_alter _ _ _
      case signals => exact h.signals
      case rates => exact h.rates

/-- At the beginning there is nothing to remember. -/
theorem remembers_start (x : Experiment) :
    Remembers (ofExperiment x : Session ρ) (ofExperiment x) [] where
  acquisitions := fun _ => rfl
  warnings := fun _ => rfl
  warned := by simp [warnedIn, ofExperiment]
  signals := rfl
  rates := rfl

/-- So a session remembers all calls that were made since the experiment was taken up. -/
theorem remembers_run (x : Experiment) (calls : List (Call ρ)) :
    Remembers (ofExperiment x) ((ofExperiment x).run calls).1 calls := by
  induction calls using List.reverseRecOn with
  | nil => exact remembers_start x
  | append_singleton calls c ih =>
      rw [run_append]
      exact ih.perform c

/-! ## Law -/

/-- How a call is answered, from the calls before it. -/
def Expected (before : List (Call ρ)) : Call ρ → Answer ρ → Prop
  | .acquire pulse, answer =>
      answer = if pulse.handle.isSome then .done else .refused (.notAnAcquisition pulse.signal)
  | .warn _ _ _, answer => answer = .done
  | .emit, answer =>
      ∃ reports, answer = .emitted reports ∧
        reports.map some = (warnedIn before).map fun uid =>
          (combine (warningsIn before uid)).map fun w => w.report w.arguments
  | .reset, answer => answer = .done

/-- What a session in step answers to the next call can be said from the history alone. -/
theorem Remembers.expected {init s : Session ρ} {calls : List (Call ρ)}
    (h : Remembers init s calls) (c : Call ρ) : Expected calls c (s.perform c).2 := by
  cases c with
  | acquire pulse =>
      show (s.perform (.acquire pulse)).2 = _
      by_cases hp : pulse.handle.isSome <;>
        simp [Session.perform, addAcquisition, PulseSchedule.isAcquisition, hp]
  | warn uid report argument => rfl
  | reset => rfl
  | emit =>
      refine ⟨s.emit, rfl, ?_⟩
      calc s.emit.map some
          = (s.warnings.values.map some).map (Option.map fun w => w.report w.arguments) := by
            simp [Session.emit, Function.comp_def]
        _ = s.warnings.keys.map fun uid => (s.warning? uid).map fun w => w.report w.arguments := by
            rw [Table.map_some_values, List.map_map]
            rfl
        _ = _ := by
            rw [h.warned]
            exact List.map_congr_left fun uid _ => by rw [h.warnings uid]

/-- After any history a session shows, on every signal, the acquisitions since the last reset and
the combination of all warnings, and the signals and sampling rates it began with.  Every call in
a history is answered as the calls before it say. -/
theorem session_history (x : Experiment) (calls : List (Call ρ)) :
    let before : Session ρ := ofExperiment x
    let now := (before.run calls).1
    (∀ uid, now.acquisitionsOn uid = acquisitionsIn calls uid) ∧
    (∀ uid, now.warning? uid = combine (warningsIn calls uid)) ∧
    (∀ uid, now.signal? uid = before.signal? uid) ∧
    (∀ uid, now.samplingRate uid = before.samplingRate uid) ∧
    ∀ c after, ∃ answer,
      (before.run (calls ++ c :: after)).2[calls.length]? = some answer ∧
        Expected calls c answer := by
  intro before now
  have hnow : Remembers before now calls := remembers_run x calls
  have hsignal : ∀ uid, now.signal? uid = before.signal? uid := fun uid => by
    unfold signal?
    rw [hnow.signals]
  refine ⟨hnow.acquisitions, hnow.warnings, hsignal, fun uid => ?_, fun c after => ?_⟩
  · unfold samplingRate
    rw [hsignal uid, hnow.rates]
  · refine ⟨(now.perform c).2, ?_, hnow.expected c⟩
    rw [run_append, List.getElem?_append_right (length_answers before calls).le,
      length_answers, Nat.sub_self]
    rfl

end PulseTimeline.Session
