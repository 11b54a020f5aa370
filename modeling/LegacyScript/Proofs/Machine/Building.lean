import LegacyScript.Proofs.Machine.PushOnly
import LegacyScript.Proofs.Script.ShortestPush

/-!
# Scripts that are built

A script is built step by step, from integers, data and opcodes. A step appends one
instruction: an opcode as it is, the shortest push of data, and for an integer the opcode that
is made for it or else the push of its bytes. So the script decodes to one instruction for
each step, unless an opcode was appended that waits for data.

Which instruction an integer becomes cannot be told from what it does. In every branch and on
every machine it does what the push of its bytes does, and a run of a script of such steps
leaves what was asked for, step by step.

## Results

* `build?_of_whole`   — the script that is built, and what it decodes to.
* `pushed_of_pushes`  — the element that a step's instruction pushes.
* `run_sameOutcome`   — scripts that push the same do the same.
* `run_built`         — what a run of a script leaves that was built of pushes.
* `build_exact`       — all of this together.
-/

namespace LegacyScript

open MachineM

-- ---------------------------------------------------------------------------
-- Steps and instructions
-- ---------------------------------------------------------------------------

/-- The instruction that pushes an integer: its own opcode, or the push of its bytes. -/
def Instruction.ofInt (n : Int) : Instruction :=
  if n = -1 then .op 0x4f
  else if 1 ≤ n ∧ n ≤ 16 then .op (UInt8.ofNat (0x50 + n.toNat))
  else .push (Number.encode n)

namespace BuildStep

/-- The instruction that a step appends. -/
def instruction : BuildStep → Instruction
  | .int value => .ofInt value.toInt
  | .data bytes => .push bytes
  -- OP_0 pushes no bytes, and is the only opcode with data that is whole on its own
  | .opcode code => if code = 0x00 then .push [] else .op code

/-- Whether a step appends an instruction, and all of it: data that fits into a push, and an
opcode that waits for no data. -/
def Whole : BuildStep → Prop
  | .int _ => True
  | .data bytes => bytes.length < 2 ^ 32
  | .opcode code => code = 0x00 ∨ 0x4e < code

/-- A step asks for an element to be pushed. -/
inductive Pushes : BuildStep → Bytes → Prop
  | int (value : Int64) : Pushes (.int value) (Number.encode value.toInt)
  | data (bytes : Bytes) : Pushes (.data bytes) bytes

end BuildStep

/-- An integer of 64 bits takes at most nine bytes, the sign included. -/
theorem length_encode_toInt_le (value : Int64) : (Number.encode value.toInt).length ≤ 9 := by
  have hUpper := value.toInt_lt
  have hLower := value.le_toInt
  have hAbs : value.toInt.natAbs < 2 ^ (8 * 8 + 7) := by omega
  exact (Number.length_encode_le_iff value.toInt 8).2 hAbs

/-- The opcode of a small number is told from the number, and back. -/
theorem toNat_numberOpcode {n : Int} (h : 1 ≤ n ∧ n ≤ 16) :
    (UInt8.ofNat (0x50 + n.toNat)).toNat = 0x50 + n.toNat := by
  rw [UInt8.toNat_ofNat']
  omega

/-- Data of a few bytes is announced by their number. -/
theorem Push.encode_of_le {data : Bytes} (h : data.length ≤ 0x4b) :
    Push.encode data = UInt8.ofNat data.length :: data := by
  rw [encode, header, if_pos h]
  rfl

namespace Instruction

variable {n : Int}

/-- The bytes of an integer are those of its instruction, although they are put together in
another way. -/
theorem encode_ofInt (h : (Number.encode n).length ≤ 0x4b) :
    (ofInt n).encode = BuildStep.intBytes n := by
  unfold ofInt BuildStep.intBytes
  by_cases hMinus : n = -1
  · rw [if_pos hMinus, if_pos hMinus]
    rfl
  · by_cases hZero : n = 0
    · subst hZero
      decide +kernel
    · rw [if_neg hMinus, if_neg hMinus, if_neg hZero]
      by_cases hSmall : 1 ≤ n ∧ n ≤ 16
      · rw [if_pos hSmall, if_pos hSmall]
        rfl
      · rw [if_neg hSmall, if_neg hSmall]
        exact Push.encode_of_le h

theorem writable_ofInt (h : (Number.encode n).length ≤ 0x4b) : (ofInt n).Writable := by
  unfold ofInt
  split
  · show (0x4e : UInt8) < 0x4f
    decide
  · split
    · next hSmall =>
      show (0x4e : UInt8) < UInt8.ofNat (0x50 + n.toNat)
      rw [UInt8.lt_iff_toNat_lt, toNat_numberOpcode hSmall]
      show 0x4e < _
      omega
    · show Push.fits (Number.encode n) = true
      exact decide_eq_true (by omega)

end Instruction

namespace BuildStep

variable {step : BuildStep} {steps : List BuildStep} {value : Bytes} {values : List Bytes}
  {item : Item}

-- ---------------------------------------------------------------------------
-- Building and decoding
-- ---------------------------------------------------------------------------

/-- A whole step appends the bytes of its instruction. -/
theorem bytes?_of_whole (h : step.Whole) :
    step.instruction.Writable ∧ step.bytes? = .ok step.instruction.encode := by
  cases step with
  | int value =>
    have hLength := length_encode_toInt_le value
    have hSmall : (Number.encode value.toInt).length ≤ 0x4b := by omega
    exact ⟨Instruction.writable_ofInt hSmall, congrArg _ (Instruction.encode_ofInt hSmall).symm⟩
  | data bytes =>
    have hSize : bytes.length < 2 ^ 32 := h
    have hFits : Push.fits bytes = true := decide_eq_true (by omega)
    exact ⟨hFits, if_pos hFits⟩
  | opcode code =>
    rw [instruction]
    by_cases hZero : code = 0x00
    · rw [if_pos hZero, hZero]
      exact ⟨rfl, rfl⟩
    · rw [if_neg hZero]
      exact ⟨h.resolve_left hZero, rfl⟩

/-- **The script that is built decodes to one instruction for each step.** -/
theorem build?_of_whole (h : ∀ step ∈ steps, step.Whole) :
    ∃ built, Script.build? steps = .ok built ∧ built.DecodesTo (steps.map instruction) := by
  refine ⟨(steps.map instruction).flatMap Instruction.encode, ?_, ?_⟩
  · refine Script.build?_of_bytes (forall₂_iff_map_eq.2 ?_)
    rw [List.map_map, List.map_map]
    exact List.map_congr_left fun step hMem => (bytes?_of_whole (h step hMem)).2
  · refine Script.decodesTo_flatMap_encode fun instruction hMem => ?_
    obtain ⟨step, hStep, rfl⟩ := List.mem_map.1 hMem
    exact (bytes?_of_whole (h step hStep)).1

-- ---------------------------------------------------------------------------
-- What is pushed
-- ---------------------------------------------------------------------------

/-- A step that asks for an element appends an instruction that pushes it. -/
theorem pushed_of_pushes (h : step.Pushes value) (hContent : item.content = .ok step.instruction) :
    item.isPush = true ∧ item.pushed = value := by
  cases h with
  | data => simp [Item.isPush, Item.pushed, hContent, instruction]
  | int value =>
    rw [instruction] at hContent
    generalize value.toInt = n at hContent ⊢
    unfold Instruction.ofInt at hContent
    split at hContent
    · next hMinus =>
      subst hMinus
      simp only [Item.isPush, Item.pushed, hContent]
      decide +kernel
    · split at hContent
      · next hSmall =>
        have hCode := toNat_numberOpcode hSmall
        generalize UInt8.ofNat (0x50 + n.toNat) = code at hContent hCode
        have hNumber : (code.toNat : Int) - 0x50 = n := by omega
        have hLower : 0x4e < code := by
          rw [UInt8.lt_iff_toNat_lt, hCode]
          show 0x4e < _
          omega
        have hUpper : code ≤ Opcode.lastPush := by
          rw [UInt8.le_iff_toNat_le, hCode]
          show _ ≤ 0x60
          omega
        have hNe : code ≠ Opcode.reserved := by
          rintro rfl
          have hReserved : Opcode.reserved.toNat = 0x50 := rfl
          omega
        obtain ⟨-, hEncode, -⟩ := Opcode.operation?_of_number code hLower hUpper hNe
        rw [hNumber] at hEncode
        simp [Item.isPush, Item.pushed, hContent, hUpper, hNe, hEncode]
      · simp [Item.isPush, Item.pushed, hContent]

/-- A script of steps that ask for elements pushes just these. -/
theorem pushed_of_decodesTo {script : Script} (h : List.Forall₂ Pushes steps values)
    (hDecodes : script.DecodesTo (steps.map instruction)) :
    script.isPushOnly = true ∧ script.pushed = values := by
  have hItems : List.Forall₂ (fun item step => item.content = .ok (instruction step))
      script.items steps := by
    refine forall₂_iff_map_eq.2 ?_
    rw [hDecodes, List.map_map]
    rfl
  have hPushed : List.Forall₂ (fun item value => item.isPush = true ∧ item.pushed = value)
      script.items values := by
    refine (forall₂_comp hItems h).imp ?_
    rintro item value ⟨step, hContent, hPushes⟩
    exact pushed_of_pushes hPushes hContent
  constructor
  · rw [Script.isPushOnly, List.all_eq_true]
    exact forall_of_forall₂ hPushed.flip fun _ _ hItem => hItem.1
  · have hValues := forall₂_iff_map_eq.1 (hPushed.imp fun _ _ hItem => hItem.2)
    rwa [List.map_id'] at hValues

end BuildStep

-- ---------------------------------------------------------------------------
-- Runs
-- ---------------------------------------------------------------------------

/-- Two reports say the same of a run, apart from what is logged. -/
structure Report.SameOutcome (report other : Report) : Prop where
  result_eq : report.result = other.result
  machine_eq : report.machine = other.machine
  steps_eq : report.steps = other.steps
  maxDepth_eq : report.maxDepth = other.maxDepth

section Runs

variable {rules : Rules} {script other : Script}

/-- Items that do the same, one by one, lead to the same outcome. -/
theorem runItems_sameOutcome {items others : List Item}
    (h : List.Forall₂ (fun item item' => runItem rules script item = runItem rules other item')
      items others) (m : Machine) (steps peak : Nat) :
    (script.runItems rules items m steps peak).SameOutcome
      (other.runItems rules others m steps peak) := by
  induction h generalizing m steps peak with
  | nil => exact ⟨rfl, rfl, rfl, rfl⟩
  | @cons item item' items others hItem _ ih =>
    have hSame : step rules script item m = step rules other item' m := by
      rw [step, step, hItem]
    cases hStep : step rules script item m with
    | ok u after =>
      rw [runItems_of_ok hStep, runItems_of_ok (hSame.symm.trans hStep)]
      exact ih after (steps + 1) (max peak after.depth)
    | error cause after =>
      rw [runItems_of_error hStep, runItems_of_error (hSame.symm.trans hStep)]
      exact ⟨rfl, rfl, rfl, rfl⟩

/-- What the items of a script that only pushes do depends on nothing but the elements that
they push. -/
theorem map_runItem_of_isPushOnly (hPush : script.isPushOnly = true) :
    script.items.map (runItem rules script) = script.pushed.map fun value =>
      if Script.maxElementSize < value.length then throw .pushSize
      else whenExecuting (onStack (StackM.push value)) := by
  rw [Script.pushed, List.map_map]
  exact List.map_congr_left fun item hMem =>
    runItem_eq_push hMem (List.all_eq_true.1 hPush item hMem)

/-- **Scripts that push the same do the same**, to any machine and also where they fail. -/
theorem run_sameOutcome (hPush : script.isPushOnly = true) (hOther : other.isPushOnly = true)
    (hPushed : script.pushed = other.pushed) (hSize : script.length ≤ Script.maxSize)
    (hOtherSize : other.length ≤ Script.maxSize) (m : Machine) :
    (script.run rules m).SameOutcome (other.run rules m) := by
  have hItems : script.items.map (runItem rules script) = other.items.map (runItem rules other) := by
    rw [map_runItem_of_isPushOnly hPush, map_runItem_of_isPushOnly hOther, hPushed]
  unfold Script.run
  rw [if_neg (Nat.not_lt.2 hSize), if_neg (Nat.not_lt.2 hOtherSize)]
  exact runItems_sameOutcome (forall₂_iff_map_eq.2 hItems) m.load 0 0

end Runs

-- ---------------------------------------------------------------------------
-- Built scripts
-- ---------------------------------------------------------------------------

namespace BuildStep

variable {step : BuildStep} {steps : List BuildStep} {value : Bytes} {values : List Bytes}

theorem whole_of_pushes (h : step.Pushes value)
    (hData : ∀ bytes, step = .data bytes → bytes.length ≤ 520) :
    step.Whole ∧ value.length ≤ 520 := by
  cases h with
  | int value =>
    have hLength := length_encode_toInt_le value
    exact ⟨trivial, by omega⟩
  | data =>
    have hLength := hData value rfl
    have hWhole : value.length < 2 ^ 32 := by omega
    exact ⟨hWhole, hLength⟩

/-- Steps that ask for elements build a script that pushes them, by one item for each. -/
theorem exists_built (hWhole : ∀ step ∈ steps, step.Whole) (h : List.Forall₂ Pushes steps values) :
    ∃ built, Script.build? steps = .ok built ∧ built.items.length = steps.length ∧
      built.isPushOnly = true ∧ built.pushed = values := by
  obtain ⟨built, hBuilt, hDecodes⟩ := build?_of_whole hWhole
  obtain ⟨hPush, hPushed⟩ := pushed_of_decodesTo h hDecodes
  have hLength := congrArg List.length hDecodes
  rw [List.length_map, List.length_map, List.length_map] at hLength
  exact ⟨built, hBuilt, hLength, hPush, hPushed⟩

/-- **What a run of a script leaves that was built of pushes.** -/
theorem run_built (rules : Rules) (h : List.Forall₂ Pushes steps values)
    (hData : ∀ bytes, .data bytes ∈ steps → bytes.length ≤ 520) :
    ∃ built, Script.build? steps = .ok built ∧
      ∀ m : Machine, built.length ≤ 10000 → m.stack.length + steps.length ≤ 1000 →
        let report := built.run rules m
        report.result = .ok () ∧ report.machine.stack.items = m.stack.items ++ values := by
  have hEach : List.Forall₂ (fun step value => step.Whole ∧ value.length ≤ 520) steps values := by
    have hMem := (List.forall₂_and_left steps values).2 ⟨fun step hStep => hStep, h⟩
    refine hMem.imp fun step value hStep => ?_
    refine whole_of_pushes hStep.2 fun bytes hBytes => ?_
    exact hData bytes (hBytes ▸ hStep.1)
  have hWhole := forall_of_forall₂ hEach.flip fun _ _ hStep => hStep.1
  have hSmall := forall_of_forall₂ hEach fun _ _ hStep => hStep.2
  obtain ⟨built, hBuilt, hLength, hPush, hPushed⟩ := exists_built hWhole h
  refine ⟨built, hBuilt, fun m hSize hRoom => ?_⟩
  have hPushable : built.Pushable m.stack.length := by
    refine ⟨hSize, ?_, fun _ => ?_⟩
    · rw [hPushed]
      exact hSmall
    · rw [hLength]
      exact hRoom
  obtain ⟨-, hResult, hMachine⟩ | ⟨hNot, -⟩ := run_pushOnly hPush rules m
  · refine ⟨hResult, ?_⟩
    show (built.run rules m).machine.stack.reverse = m.stack.reverse ++ values
    rw [hMachine, ← hPushed]
    show (built.pushed.reverse ++ m.stack).reverse = _
    rw [List.reverse_append, List.reverse_reverse]
  · exact absurd hPushable hNot

/-- A step among others that ask for elements: what is pushed does not depend on the step, but
on the element that it asks for. -/
theorem exists_built_among {front rest : List BuildStep}
    (hSteps : ∀ step ∈ front ++ rest, step.Whole ∧ ∃ bytes, step.Pushes bytes) (value : Bytes) :
    ∃ values, ∀ step : BuildStep, step.Whole → step.Pushes value →
      ∃ built, Script.build? (front ++ step :: rest) = .ok built ∧ built.isPushOnly = true ∧
        built.pushed = values := by
  obtain ⟨before, hBefore⟩ := exists_forall₂_iff.2 fun step hMem =>
    (hSteps step (List.mem_append_left rest hMem)).2
  obtain ⟨behind, hBehind⟩ := exists_forall₂_iff.2 fun step hMem =>
    (hSteps step (List.mem_append_right front hMem)).2
  refine ⟨before ++ value :: behind, fun step hStep hPushes => ?_⟩
  have hWhole : ∀ other ∈ front ++ step :: rest, other.Whole := by
    intro other hMem
    rcases List.mem_append.1 hMem with hFront | hRest
    · exact (hSteps other (List.mem_append_left rest hFront)).1
    · rcases List.mem_cons.1 hRest with rfl | hRest
      · exact hStep
      · exact (hSteps other (List.mem_append_right front hRest)).1
  obtain ⟨built, hBuilt, -, hPush, hPushed⟩ :=
    exists_built hWhole (List.rel_append hBefore (.cons hPushes hBehind))
  exact ⟨built, hBuilt, hPush, hPushed⟩

/-- The bytes of an integer can be asked for as data. -/
theorem whole_data_encode (value : Int64) : Whole (.data (Number.encode value.toInt)) := by
  have hLength := length_encode_toInt_le value
  show (Number.encode value.toInt).length < 2 ^ 32
  omega

end BuildStep

/-- **What is built is what is run.** Steps that append whole instructions build a script that
decodes to these instructions, one for each step and in order. If the steps ask for integers
and for data that may be pushed, and the script and the stack stay within their limits, a run
succeeds and puts these elements on the stack, the integers in their bytes, above all that was
there. To ask for an integer and to ask for its bytes comes to the same in any such script that
may be run, on every machine and whatever becomes of the run. -/
theorem build_exact (rules : Rules) :
    (∀ steps : List BuildStep, (∀ step ∈ steps, step.Whole) →
      ∃ built, Script.build? steps = .ok built ∧
        built.DecodesTo (steps.map BuildStep.instruction)) ∧
    (∀ (steps : List BuildStep) (values : List Bytes),
      List.Forall₂ BuildStep.Pushes steps values →
      (∀ bytes, .data bytes ∈ steps → bytes.length ≤ 520) →
      ∃ built, Script.build? steps = .ok built ∧
        ∀ m : Machine, built.length ≤ 10000 → m.stack.length + steps.length ≤ 1000 →
          let report := built.run rules m
          report.result = .ok () ∧ report.machine.stack.items = m.stack.items ++ values) ∧
    ∀ (value : Int64) (front rest : List BuildStep),
      (∀ step ∈ front ++ rest, step.Whole ∧ ∃ bytes, step.Pushes bytes) →
      ∃ built other,
        Script.build? (front ++ .int value :: rest) = .ok built ∧
        Script.build? (front ++ .data (Number.encode value.toInt) :: rest) = .ok other ∧
        (built.length ≤ 10000 → other.length ≤ 10000 →
          ∀ m : Machine, (built.run rules m).SameOutcome (other.run rules m)) := by
  refine ⟨fun steps hWhole => BuildStep.build?_of_whole hWhole,
    fun steps values hPushes hData => BuildStep.run_built rules hPushes hData, ?_⟩
  intro value front rest hSteps
  -- both lists ask for the same elements, so that both scripts push the same
  obtain ⟨values, hBuild⟩ := BuildStep.exists_built_among hSteps (Number.encode value.toInt)
  obtain ⟨built, hBuilt, hPush, hPushed⟩ := hBuild (.int value) trivial (.int value)
  obtain ⟨other, hOther, hOtherPush, hOtherPushed⟩ :=
    hBuild _ (BuildStep.whole_data_encode value) (.data _)
  refine ⟨built, other, hBuilt, hOther, fun hSize hOtherSize m => ?_⟩
  exact run_sameOutcome hPush hOtherPush (hPushed.trans hOtherPushed.symm) hSize hOtherSize m

/-- The least integer, the last one with an opcode of its own and the first without, and data
whose length takes two bytes. An opcode behind the first step and nothing else is in the way of
a run. -/
theorem build_exact_least :
    let rules : Rules := ⟨{ checkSig := fun _ _ _ => true }, Flags.none⟩
    let data : Bytes := List.replicate 520 0xaa
    let steps : List BuildStep := [.int Int64.minValue, .int 16, .data data, .int 17]
    let least : Bytes := [0, 0, 0, 0, 0, 0, 0, 0x80, 0x80]
    let values : List Bytes := [least, [0x10], data, [0x11]]
    let m := Machine.ofStack (List.replicate 996 [])
    (∃ built, Script.build? (.opcode 0x00 :: .opcode 0x4f :: steps) = .ok built ∧
      built.DecodesTo
        [.push [], .op 0x4f, .push least, .op 0x60, .push data, .push [0x11]]) ∧
    (∃ built, Script.build? steps = .ok built ∧ built.length = 536 ∧
      (built.run rules m).result = .ok () ∧
      (built.run rules m).machine.stack.items = m.stack.items ++ values) ∧
    ∃ built other, Script.build? [.int 16] = .ok built ∧ Script.build? [.data [0x10]] = .ok other ∧
      built ≠ other ∧ ∀ m : Machine, (built.run rules m).SameOutcome (other.run rules m) := by
  intro rules data steps least values m
  obtain ⟨hDecode, hRun, hSame⟩ := build_exact rules
  have hData : data.length = 520 := List.length_replicate
  have hHeight : m.stack.length = 996 := List.length_replicate
  have hLeast : Number.encode Int64.minValue.toInt = least := by decide +kernel
  have hSixteen : Number.encode (16 : Int64).toInt = [0x10] := by decide +kernel
  have hSeventeen : Number.encode (17 : Int64).toInt = [0x11] := by decide +kernel
  have hPushes : List.Forall₂ BuildStep.Pushes steps values := by
    refine .cons ?_ (.cons ?_ (.cons (.data data) (.cons ?_ .nil)))
    · rw [← hLeast]
      exact .int _
    · rw [← hSixteen]
      exact .int _
    · rw [← hSeventeen]
      exact .int _
  have hWhole : ∀ step ∈ .opcode 0x00 :: .opcode 0x4f :: steps, step.Whole := by
    intro step hMem
    simp only [steps, List.mem_cons, List.not_mem_nil, or_false] at hMem
    rcases hMem with rfl | rfl | rfl | rfl | rfl | rfl
    · exact .inl rfl
    · exact .inr (by decide)
    · trivial
    · trivial
    · show data.length < 2 ^ 32
      omega
    · trivial
  refine ⟨?_, ?_, ?_⟩
  · obtain ⟨built, hBuilt, hDecodes⟩ := hDecode _ hWhole
    refine ⟨built, hBuilt, ?_⟩
    have hInstructions : (.opcode 0x00 :: .opcode 0x4f :: steps).map BuildStep.instruction =
        [.push [], .op 0x4f, .push least, .op 0x60, .push data, .push [0x11]] := by
      decide +kernel
    rwa [hInstructions] at hDecodes
  · have hSmall : ∀ bytes, .data bytes ∈ steps → bytes.length ≤ 520 := by
      intro bytes hMem
      obtain rfl : bytes = data := by simpa [steps] using hMem
      omega
    obtain ⟨built, hBuilt, hAll⟩ := hRun steps values hPushes hSmall
    have hLength : built.length = 536 := by
      have hBytes : (Script.build? steps).map List.length = .ok 536 := by decide +kernel
      rw [hBuilt] at hBytes
      exact Except.ok.inj hBytes
    have hSize : built.length ≤ 10000 := by omega
    have hRoom : m.stack.length + steps.length ≤ 1000 := by
      show m.stack.length + 4 ≤ 1000
      omega
    obtain ⟨hResult, hStack⟩ := hAll m hSize hRoom
    exact ⟨built, hBuilt, hLength, hResult, hStack⟩
  · obtain ⟨built, other, hBuilt, hOther, hOutcome⟩ := hSame 16 [] [] (by simp)
    rw [hSixteen] at hOther
    obtain rfl : [0x60] = built := by
      have hBytes : Script.build? [.int 16] = .ok [0x60] := by decide +kernel
      exact Except.ok.inj (hBytes.symm.trans hBuilt)
    obtain rfl : [0x01, 0x10] = other := by
      have hBytes : Script.build? [.data [0x10]] = .ok [0x01, 0x10] := by decide +kernel
      exact Except.ok.inj (hBytes.symm.trans hOther)
    exact ⟨_, _, hBuilt, hOther, by decide, hOutcome (by decide) (by decide)⟩

end LegacyScript
