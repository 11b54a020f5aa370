import LegacyScript.Proofs.Machine.Budget

/-!
# Where signature checks come from

What a signature means depends on the script code that it is checked with. It begins
behind the last code separator that was executed, and leaves out the signatures of the
test. A separator in a branch that does not run leaves it as it is.

`lastSeparator` finds that place in the visits of a run, without the machine. The machine
carries it from item to item (`Visited.codeStart_eq`), and each call to the checker is
traced back to the visit that made it (`madeIn_of_call`): what was on record when the
visit began, and what it asked up to that call, are together all that was asked earlier. So
the same question, asked again later, is traced to the later visit.

## Results

* `Visited.codeStart_eq` — the script code begins behind the last separator executed.
* `madeIn_of_call`       — every call was made by one visit, in the course of a test.
* `checkSig_provenance`  — both, for all signature checks of a run.
-/

namespace LegacyScript

variable {rules : Rules} {script : Script} {m now : Machine} {past : List Visit} {visit : Visit}
  {earlier later : List Call} {call : Call}

-- ---------------------------------------------------------------------------
-- Code separators
-- ---------------------------------------------------------------------------

/-- Whether a visit executes a code separator. -/
def Visit.separates (visit : Visit) : Bool :=
  visit.executed? == some .codeSeparator

/-- The offset behind the last code separator that was executed, or that of the beginning. -/
def lastSeparator (visits : List Visit) : Nat :=
  match visits.reverse.find? Visit.separates with
  | some visit => visit.item.stop
  | none => 0

theorem lastSeparator_append_singleton (past : List Visit) (visit : Visit) :
    lastSeparator (past ++ [visit]) =
      if visit.separates then visit.item.stop else lastSeparator past := by
  unfold lastSeparator
  rw [List.reverse_concat, List.find?_cons]
  cases visit.separates <;> rfl

theorem Visited.mem_items (h : Visited rules script m past now) (hMem : visit ∈ past) :
    visit.item ∈ script.items := by
  induction h with
  | start => cases hMem
  | next _ hItem _ ih =>
    rcases List.mem_append.1 hMem with hPast | hLast
    · exact ih hPast
    · rw [List.mem_singleton.1 hLast]
      exact hItem

/-- The script code begins at a boundary. -/
theorem Visited.boundary (h : Visited rules script m past now) :
    script.Boundary (lastSeparator past) := by
  unfold lastSeparator
  cases hFind : past.reverse.find? Visit.separates with
  | none => exact script.boundary_zero
  | some last =>
    -- the separator is an item of the script, and ends where one ends
    have hMem := List.mem_reverse.1 (List.mem_of_find?_eq_some hFind)
    exact Script.boundary_stop (h.mem_items hMem)

/-- **The script code begins behind the last separator executed.** -/
theorem Visited.codeStart_eq (h : Visited rules script m past now) (hOps : m.opCount = 0)
    (hStart : m.codeStart = 0) : now.codeStart = lastSeparator past := by
  induction h with
  | start => exact hStart
  | @next past visit hVisited hMem hOk ih =>
    have hLimit := (hVisited.opCount_eq hOps).2
    have hSettled : visit.Settled rules script := Visit.settled hMem hLimit
    rw [hSettled.codeStart_eq hOk, lastSeparator_append_singleton, Visit.codeStart,
      Visit.separates, ← ih]
    simp only [beq_iff_eq]

-- ---------------------------------------------------------------------------
-- Calls
-- ---------------------------------------------------------------------------

/-- A visit makes a call behind `earlier`: it finds a part of these on record, and asks the
others, the call and then some more in the course of its test. -/
structure Visit.Makes (rules : Rules) (script : Script) (visit : Visit) (earlier : List Call)
    (call : Call) (since more : List Call) : Prop where
  earlier_eq : earlier = visit.before.calls ++ since
  asks : visit.Asks rules script (since ++ call :: more)
  recorded : (visit.after rules script).calls = earlier ++ call :: more

/-- One of the visits makes a call behind `earlier`. -/
def MadeIn (rules : Rules) (script : Script) (visits : List Visit) (earlier : List Call)
    (call : Call) : Prop :=
  ∃ front visit rest since more, visits = front ++ visit :: rest ∧
    visit.Makes rules script earlier call since more

/-- A call that is on record behind a visit was so before, or the visit made it. -/
theorem Visit.call_source (hMem : visit.item ∈ script.items)
    (hOps : visit.before.opCount ≤ Machine.maxOps)
    (hCall : (visit.after rules script).calls = earlier ++ call :: later) :
    (∃ later, visit.before.calls = earlier ++ call :: later) ∨
      ∃ since more, visit.Makes rules script earlier call since more := by
  have hSettled : visit.Settled rules script := Visit.settled hMem hOps
  rcases hSettled.asked with hSame | ⟨-, calls, hAsks, hMore⟩
  · rw [hSame] at hCall
    exact .inl ⟨later, hCall⟩
  · have hAppend := hMore.symm.trans hCall
    rcases append_eq_append_cons hAppend with hBefore | ⟨since, hEarlier, rfl⟩
    · exact .inl hBefore
    · exact .inr ⟨since, later, hEarlier, hAsks, hCall⟩

/-- One more visit makes the calls that are new on record behind it. -/
theorem madeIn_append_singleton (hMem : visit.item ∈ script.items)
    (hOps : visit.before.opCount ≤ Machine.maxOps)
    (hPast : ∀ later, visit.before.calls = earlier ++ call :: later →
      MadeIn rules script past earlier call)
    (hCall : (visit.after rules script).calls = earlier ++ call :: later) :
    MadeIn rules script (past ++ [visit]) earlier call := by
  rcases Visit.call_source hMem hOps hCall with ⟨later, hBefore⟩ | ⟨since, more, hMakes⟩
  · obtain ⟨front, other, rest, since, more, rfl, hMakes⟩ := hPast later hBefore
    exact ⟨front, other, rest ++ [visit], since, more, by simp, hMakes⟩
  · exact ⟨past, visit, [], since, more, rfl, hMakes⟩

theorem Visited.madeIn_of_call (h : Visited rules script m past now) (hOps : m.opCount = 0)
    (hCalls : m.calls = []) (hCall : now.calls = earlier ++ call :: later) :
    MadeIn rules script past earlier call := by
  induction h generalizing later with
  | start =>
    rw [hCalls] at hCall
    simp at hCall
  | next hVisited hMem _ ih =>
    have hLimit := (hVisited.opCount_eq hOps).2
    exact madeIn_append_singleton hMem hLimit (fun _ => ih) hCall

/-- **Every call was made by one visit**, which asked it in the course of a test. -/
theorem madeIn_of_call (rules : Rules) (m : Machine) (script : Script)
    (hCall : (script.run rules m).machine.calls = earlier ++ call :: later) :
    MadeIn rules script (script.visits rules m) earlier call := by
  obtain ⟨-, -, hEnding⟩ := run_visits rules m script
  cases hEnding with
  | passed hVisited _ => exact hVisited.madeIn_of_call rfl rfl hCall
  | failed past last cause hVisits hMem hVisited _ hMachine _ =>
    have hLimit := (hVisited.opCount_eq rfl).2
    rw [hMachine] at hCall
    rw [hVisits]
    exact madeIn_append_singleton hMem hLimit (fun _ => hVisited.madeIn_of_call rfl rfl) hCall

-- ---------------------------------------------------------------------------
-- Whole runs
-- ---------------------------------------------------------------------------

/-- **The provenance of signature checks.** In front of every visit of a run the script
code begins behind the last code separator that was executed, or where the script does;
this is a boundary between items, and so within the script. Every signature check of the
run was made by a visit that executes a test: what it found on record and what it asked up
to this check are all the earlier calls, and the check is on record behind it. It is about
a signature and a key that the test has taken from the stack; just before it the checker
has accepted the form of both; and the script code is the script from the place in front of
that visit on, without the signatures that the test has taken, removed in their order. -/
theorem checkSig_provenance (rules : Rules) (m : Machine) (script : Script) :
    let report := script.run rules m
    let visits := script.visits rules m
    (∀ front visit rest, visits = front ++ visit :: rest →
      visit.before.codeStart = lastSeparator front ∧ script.Boundary (lastSeparator front)) ∧
    ∀ earlier signature pubkey scriptCode verdict later,
      let call : Call := ⟨.checkSig signature pubkey scriptCode, verdict⟩
      report.machine.calls = earlier ++ call :: later →
        (∃ before, earlier =
          before ++ [⟨.acceptsSignature signature, true⟩, ⟨.acceptsPubkey pubkey, true⟩]) ∧
        rules.checker.acceptsSignature signature rules.flags = true ∧
        rules.checker.acceptsPubkey pubkey rules.flags = true ∧
        verdict = rules.checker.checkSig signature pubkey scriptCode ∧
        ∃ front visit rest since more t signatures pubkeys, visits = front ++ visit :: rest ∧
          earlier = visit.before.calls ++ since ∧
          visit.Asks rules script (since ++ call :: more) ∧
          (visit.after rules script).calls = earlier ++ call :: more ∧
          visit.test? = some t ∧ Takes t visit.before.stack signatures pubkeys ∧
          signature ∈ signatures ∧ pubkey ∈ pubkeys ∧
          scriptCode = signatures.foldl Script.removeSignature
            (script.drop (lastSeparator front)) := by
  intro report visits
  -- the machine in front of a visit knows the last separator of the visits before it
  have hPlaces : ∀ front visit rest, visits = front ++ visit :: rest →
      visit.before.codeStart = lastSeparator front ∧ script.Boundary (lastSeparator front) := by
    intro front visit rest hVisits
    have hVisited := (visited_of_visits hVisits).2
    exact ⟨hVisited.codeStart_eq rfl rfl, hVisited.boundary⟩
  refine ⟨hPlaces, ?_⟩
  intro earlier signature pubkey scriptCode verdict later call hCall
  -- the visit that made the call, and the calls of its test in front of that one
  obtain ⟨front, visit, rest, since, more, hVisits, hMakes⟩ :=
    madeIn_of_call rules m script hCall
  obtain ⟨t, hTest, operands, hTakes, hAsked⟩ := hMakes.asks
  -- what the matching of that test has seen to
  obtain ⟨⟨hSignature, hPubkey, hCode, hVerdict⟩, ⟨hAccepts, hAccepts'⟩, before, hBefore⟩ :=
    Checker.vetted_matchAll since more signature pubkey scriptCode verdict hAsked.symm
  have hStart := (hPlaces front visit rest hVisits).1
  refine ⟨⟨visit.before.calls ++ before, ?_⟩, hAccepts, hAccepts', hVerdict, front, visit, rest,
    since, more, t, operands.signatures, operands.pubkeys, hVisits, hMakes.earlier_eq, hMakes.asks,
    hMakes.recorded, hTest, hTakes, hSignature, hPubkey, ?_⟩
  · rw [hMakes.earlier_eq, hBefore, List.append_assoc]
  · rw [hCode, Operands.scriptCode, Machine.coveredCode, hStart]

/-- One signature and key are checked twice, and a separator is executed in between. The
second check is about what is behind it; the separator that is passed over moves nothing. -/
theorem checkSig_provenance_twice :
    let rules : Rules := ⟨{
      checkSig := fun _ _ _ => true
      acceptsSignature := fun _ _ => true
      acceptsPubkey := fun _ _ => true }, Flags.none⟩
    let m := Machine.ofStack [[7], [9]]
    let script : Script := [0x6e, 0xac, 0x75, 0xab, 0x00, 0x63, 0xab, 0x68, 0xac]
    let report := script.run rules m
    let visits := script.visits rules m
    let accepted : List Call := [⟨.acceptsSignature [9], true⟩, ⟨.acceptsPubkey [7], true⟩]
    let first : Call := ⟨.checkSig [9] [7] script, true⟩
    let second : Call := ⟨.checkSig [9] [7] [0x00, 0x63, 0xab, 0x68, 0xac], true⟩
    let earlier := accepted ++ first :: accepted
    report.machine.calls = earlier ++ second :: [] ∧
      ∃ front visit rest since more t signatures pubkeys, visits = front ++ visit :: rest ∧
        earlier = visit.before.calls ++ since ∧
        visit.Asks rules script (since ++ second :: more) ∧
        (visit.after rules script).calls = earlier ++ second :: more ∧
        visit.test? = some t ∧ Takes t visit.before.stack signatures pubkeys ∧
        [9] ∈ signatures ∧ [7] ∈ pubkeys ∧
        [0x00, 0x63, 0xab, 0x68, 0xac] = signatures.foldl Script.removeSignature
          (script.drop (lastSeparator front)) := by
  intro rules m script report visits accepted first second earlier
  have hCalls : report.machine.calls = earlier ++ second :: [] := by decide +kernel
  obtain ⟨-, hChecks⟩ := checkSig_provenance rules m script
  obtain ⟨-, -, -, -, hMade⟩ := hChecks _ _ _ _ _ _ hCalls
  exact ⟨hCalls, hMade⟩

end LegacyScript
