import Mathlib.Data.List.DropRight
import ProceduralScene.Diagnostic.Log

/-!
What a log tells of the records since it was cleared: the latest of them, how many there are of each code, and the
earliest one that the policy escalates. The cap evicts messages only, and a silenced code is recorded like any other.
-/

set_option autoImplicit false

namespace ProceduralScene

/-- A call that changes a log. -/
inductive LogCall where
  | record (level code text : String) (path : Option String)
  | info (text : String) (path : Option String)
  | clear

namespace LogCall

def run (log : DiagnosticLog) : LogCall → DiagnosticLog
  | record level code text path => log.add ⟨level, code, text, path⟩
  | info text path => log.info text path
  | clear => log.clear

/-- The record that a call makes. -/
def entry? : LogCall → Option Diagnostic
  | record level code text path => some ⟨level, code, text, path⟩
  | info text path => some ⟨"info", "I00", text, path⟩
  | clear => none

def isClear : LogCall → Bool
  | clear => true
  | _ => false

/-- The records since the last call that cleared the log, oldest first. -/
def sinceClear (calls : List LogCall) : List Diagnostic :=
  (calls.rtakeWhile fun call => !call.isClear).filterMap entry?

theorem sinceClear_entry (calls : List LogCall) {call : LogCall} {entry : Diagnostic} (made : call.entry? = some entry) :
    sinceClear (calls ++ [call]) = sinceClear calls ++ [entry] := by
  have kept : (!call.isClear) = true := by
    cases call with
    | clear => cases made
    | _ => rfl
  rw [sinceClear, sinceClear, List.rtakeWhile_concat_pos (fun call : LogCall => !call.isClear) _ _ kept,
    List.filterMap_append]
  simp [made]

theorem sinceClear_clear (calls : List LogCall) : sinceClear (calls ++ [clear]) = [] := by
  rw [sinceClear, List.rtakeWhile_concat_neg _ _ _ Bool.false_ne_true]
  rfl

/-- A call records an entry or clears the log. -/
theorem run_cases (log : DiagnosticLog) (call : LogCall) :
    (∃ entry, call.entry? = some entry ∧ run log call = log.add entry) ∨ call = clear ∧ run log call = log.clear := by
  cases call with
  | record level code text path => exact .inl ⟨_, rfl, rfl⟩
  | info text path => exact .inl ⟨_, rfl, rfl⟩
  | clear => exact .inr ⟨rfl, rfl⟩

end LogCall

namespace DiagnosticLog

theorem count_increment (code asked : String) (counts : List (String × Nat)) :
    ((increment code counts).lookup asked).getD 0 = (counts.lookup asked).getD 0 + if code = asked then 1 else 0 := by
  induction counts with
  | nil =>
    rw [increment, List.lookup_cons]
    by_cases same : asked = code
    · simp [same]
    · simp [beq_false_of_ne same, Ne.symm same]
  | cons found rest ih =>
    obtain ⟨name, n⟩ := found
    rw [increment]
    by_cases same : asked = name
    · subst same
      by_cases here : asked = code
      · simp [here]
      · simp [beq_false_of_ne here, Ne.symm here]
    · by_cases here : name = code
      · subst here
        simp [List.lookup_cons, beq_false_of_ne same, Ne.symm same]
      · simp [List.lookup_cons, beq_false_of_ne same, here, ih]

/-- The messages after one more record are the latest ones before it and the record, up to the cap. -/
theorem retain_suffix (cap : Nat) {messages records : List Diagnostic} (entry : Diagnostic) (latest : messages <:+ records)
    (size : messages.length = min cap records.length) :
    retain cap messages entry <:+ records ++ [entry] ∧
      (retain cap messages entry).length = min cap (records ++ [entry]).length := by
  obtain ⟨evicted, rfl⟩ := latest
  constructor
  · refine (List.drop_suffix _ _).trans ?_
    rw [List.append_assoc]
    exact List.suffix_append evicted _
  · simp only [retain, List.length_drop, List.length_append, List.length_singleton] at size ⊢
    omega

/-- A log with a policy and a cap holds these records since it was cleared. The first records are those that any test
of codes finds first. -/
structure Holds (policy : WarningPolicy) (cap : Nat) (records : List Diagnostic) (log : DiagnosticLog) : Prop where
  obeys : log.policy = policy
  bounded : log.cap = cap
  latest : log.messages <:+ records
  size : log.messages.length = min cap records.length
  counts : ∀ code, log.count code = records.countP fun entry => entry.code == code
  first : ∀ test : String → Bool, log.first.find? (fun found => test found.1) =
    (records.find? fun entry => test entry.code).map fun entry => (entry.code, entry)

section

variable {policy : WarningPolicy} {cap : Nat} {records : List Diagnostic} {log : DiagnosticLog}

theorem holds_new (policy : WarningPolicy) (cap : Nat) : Holds policy cap [] (new policy cap) where
  obeys := rfl
  bounded := rfl
  latest := List.suffix_rfl
  size := (Nat.min_zero cap).symm
  counts _ := rfl
  first _ := rfl

theorem holds_clear (holds : Holds policy cap records log) : Holds policy cap [] log.clear :=
  { holds_new policy cap with
    obeys := holds.obeys
    bounded := holds.bounded }

theorem first_add (holds : Holds policy cap records log) (entry : Diagnostic) (test : String → Bool) :
    (log.add entry).first.find? (fun found => test found.1) =
      ((records ++ [entry]).find? fun entry => test entry.code).map fun entry => (entry.code, entry) := by
  have before := holds.first test
  have known : log.first.any (·.1 == entry.code) = true ↔ (records.find? fun found => found.code == entry.code).isSome := by
    rw [List.any_eq_true, ← List.find?_isSome, holds.first (· == entry.code), Option.isSome_map]
  rw [List.find?_append]
  dsimp only [add]
  cases earlier : records.find? fun found => test found.code with
  | some found =>
    -- what was found first before is found first again
    rw [earlier] at before
    split <;> simp [List.find?_append, before]
  | none =>
    rw [earlier] at before
    rw [Option.none_or]
    split
    · -- an earlier record of the same code fails the test as well
      rename_i repeated
      obtain ⟨found, met⟩ := Option.isSome_iff_exists.mp (known.mp repeated)
      have same : found.code = entry.code := by simpa using List.find?_some met
      have fails := List.find?_eq_none.mp earlier found (List.mem_of_find?_eq_some met)
      rw [same] at fails
      simp [before, fails]
    · rw [List.find?_append, before]
      cases passes : test entry.code <;> simp [passes]

theorem holds_add (holds : Holds policy cap records log) (entry : Diagnostic) :
    Holds policy cap (records ++ [entry]) (log.add entry) := by
  obtain ⟨latest, size⟩ := retain_suffix log.cap entry holds.latest (by rw [holds.bounded, holds.size])
  exact
    { obeys := holds.obeys
      bounded := holds.bounded
      latest := latest
      size := by rw [← holds.bounded]; exact size
      counts := fun code => by
        rw [List.countP_append, ← holds.counts code, count, add, count_increment, List.countP_singleton]
        simp [count]
      first := first_add holds entry }

/-- Whatever was called, the log holds the records since it was cleared. -/
theorem holds_calls (policy : WarningPolicy) (cap : Nat) (calls : List LogCall) :
    Holds policy cap (LogCall.sinceClear calls) (calls.foldl LogCall.run (new policy cap)) := by
  induction calls using List.reverseRecOn with
  | nil => exact holds_new policy cap
  | append_singleton calls call ih =>
    rw [List.foldl_append, List.foldl_cons, List.foldl_nil]
    rcases LogCall.run_cases (calls.foldl LogCall.run (new policy cap)) call with ⟨entry, made, ran⟩ | ⟨rfl, ran⟩
    · rw [LogCall.sinceClear_entry calls made, ran]
      exact holds_add ih entry
    · rw [LogCall.sinceClear_clear, ran]
      exact holds_clear ih

theorem raise_of_holds (holds : Holds policy cap records log) : log.raiseForPolicy =
    match records.find? fun entry => policy.escalated.contains entry.code with
    | none => .ok ()
    | some entry => .error (.escalated ("[" ++ entry.code ++ "] " ++ entry.text)) := by
  unfold raiseForPolicy escalation?
  rw [holds.obeys, holds.first policy.escalated.contains]
  cases records.find? fun entry => policy.escalated.contains entry.code <;> rfl

/-- After any calls the messages are as many of the latest records as the cap allows, the counts are those of all
records, and the earliest record with an escalated code is raised, evicted and silenced or not. -/
theorem escalates_evicted (policy : WarningPolicy) (cap : Nat) (calls : List LogCall) :
    let log := calls.foldl LogCall.run (new policy cap)
    let records := LogCall.sinceClear calls
    (log.messages <:+ records ∧ log.messages.length = min cap records.length) ∧
      (∀ code, log.count code = records.countP fun entry => entry.code == code) ∧
      log.raiseForPolicy =
        match records.find? fun entry => policy.escalated.contains entry.code with
        | none => .ok ()
        | some entry => .error (.escalated ("[" ++ entry.code ++ "] " ++ entry.text)) := by
  intro log records
  have holds : Holds policy cap records log := holds_calls policy cap calls
  exact ⟨⟨holds.latest, holds.size⟩, holds.counts, raise_of_holds holds⟩

end

end DiagnosticLog

end ProceduralScene
