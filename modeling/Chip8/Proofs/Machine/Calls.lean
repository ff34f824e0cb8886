import Chip8.Proofs.Instruction.Number
import Chip8.Proofs.Machine.Sound

/-!
# Calls and returns

Between a call and the cycle that takes its return address back, the stack below that address is
out of reach.  A history is followed operation by operation, with every frame replaced by what it
consists of.

* `Machine.calls`, `Machine.returns` — the next cycle is a call, or a return, and succeeds.
* `stack_cycle` — what a cycle does to the stack in either case and in all others.
* `prefix_step` — one operation keeps some addresses at the bottom, or takes the last of them back.
* `prefix_stage` — so they stay until the stack is no deeper than they reach.
* `calls_nest` — the matching return leads behind the call, and the depth of the stack is the number
  of calls less the number of returns.
-/

namespace Chip8
namespace Machine

/-- The next cycle is a call and succeeds. -/
def calls (machine : Machine) : Bool :=
  machine.cycle.result.isOk && machine.word.toNat / 0x1000 == 0x2

/-- The next cycle is a return and succeeds. -/
def returns (machine : Machine) : Bool :=
  machine.cycle.result.isOk && machine.word == 0x00EE

/-- How many cycles of a history were asked of a machine with a property. -/
def count (event : Machine → Bool) (machine : Machine) : List Operation → Nat
  | [] => 0
  | operation :: rest =>
      (if operation = .cycle ∧ event machine then 1 else 0) +
        (operation.apply machine).machine.count event rest

/-- The machine after the first operations of a history. -/
def stage (machine : Machine) (history : List Operation) (length : Nat) : Machine :=
  machine.after (history.take length)

/-! ## One cycle -/

/-- A word that is read as neither a call nor a return is none. -/
theorem not_call_not_ret {word : UInt16} {instruction : Instruction}
    (hread : Instruction.decode word = some instruction)
    (hcall : ∀ target, instruction ≠ .call target) (hret : instruction ≠ .ret) :
    word.toNat / 0x1000 ≠ 0x2 ∧ word ≠ 0x00EE := by
  constructor
  · intro hfamily
    rw [Instruction.decode_call hfamily] at hread
    exact hcall _ (Option.some.inj hread).symm
  · rintro rfl
    exact hret (Option.some.inj hread).symm

/-- A call pushes the address behind it, a return goes to the address that it pops, and no other
cycle touches the stack. -/
theorem stack_cycle (machine : Machine) :
    (machine.calls = true ∧ machine.returns = false ∧
        machine.stack.push (machine.pc + 2) = .ok machine.cycle.machine.stack) ∨
      (machine.calls = false ∧ machine.returns = true ∧
        machine.stack.pop = .ok (machine.cycle.machine.pc, machine.cycle.machine.stack)) ∨
      (machine.calls = false ∧ machine.returns = false ∧
        machine.cycle.machine.stack = machine.stack) := by
  unfold calls returns
  obtain ⟨-, hcycle⟩ | ⟨-, fault, records, -, hcycle⟩ |
      ⟨-, -, -, instruction, next, records, hread, hexecute, hcycle⟩ := cycle_cases machine
  · rw [hcycle]
    exact .inr (.inr ⟨rfl, rfl, rfl⟩)
  · rw [hcycle]
    exact .inr (.inr ⟨rfl, rfl, rfl⟩)
  · rw [hcycle]
    have hnumber := (Instruction.number_of_decode hread).1
    obtain ⟨target, rfl, hpush⟩ | ⟨rfl, hpop⟩ | ⟨hcall, hret, hsame⟩ := stack_of_execute hexecute
    · rw [Instruction.number] at hnumber
      have hfamily : machine.word.toNat / 0x1000 = 0x2 := by omega
      have hother : machine.word ≠ 0x00EE := by
        intro hword
        rw [hword] at hfamily
        exact absurd hfamily (by decide)
      exact .inl ⟨by simp [Except.isOk, Except.toBool, hfamily],
        by simp [hother], hpush⟩
    · obtain hword : machine.word = 0x00EE := UInt16.toNat_inj.mp hnumber
      exact .inr (.inl ⟨by simp [hword], by simp [Except.isOk, Except.toBool, hword], hpop⟩)
    · obtain ⟨hfamily, hother⟩ := not_call_not_ret hread hcall hret
      exact .inr (.inr ⟨by simp [hfamily], by simp [hother], hsame⟩)

/-- One operation other than a frame keeps some addresses at the bottom of the stack, or it is a
return that takes the last of them back. -/
theorem prefix_step {machine : Machine} {low : List UInt16} {operation : Operation}
    (hdepth : machine.stack.pointer ≤ stackSize) (hlow : low <+: machine.stack.held)
    (hframe : operation ≠ .frame) :
    let next := (operation.apply machine).machine
    low <+: next.stack.held ∨
      (operation = .cycle ∧ machine.returns = true ∧ low = next.stack.held ++ [next.pc]) := by
  cases operation with
  | cycle =>
    show low <+: machine.cycle.machine.stack.held ∨ _
    obtain ⟨-, -, hpush⟩ | ⟨-, hreturns, hpop⟩ | ⟨-, -, hsame⟩ := stack_cycle machine
    · left
      rw [CallStack.held_push hpush]
      exact hlow.trans (List.prefix_append _ _)
    · -- the address popped may be the last of them
      rw [CallStack.held_pop hdepth hpop, List.prefix_concat_iff] at hlow
      rcases hlow with hall | hbelow
      · exact .inr ⟨rfl, hreturns, hall⟩
      · exact .inl hbelow
    · left
      rw [hsame]
      exact hlow
  | frame => exact absurd rfl hframe
  | tick => exact .inl hlow
  | key number down =>
    left
    simp only [Operation.apply, setKey]
    cases machine.keypad.set number down <;> exact hlow
  | speed hertz => exact .inl hlow

/-! ## Histories -/

theorem stage_succ (machine : Machine) {history : List Operation} {length : Nat}
    (hlength : length < history.length) :
    machine.stage history (length + 1) =
      (history[length].apply (machine.stage history length)).machine := by
  unfold stage
  rw [List.take_add_one, List.getElem?_eq_getElem hlength, Option.toList_some, after_concat]

theorem stage_of_getElem? (machine : Machine) {history : List Operation} {length : Nat}
    {operation : Operation} (hoperation : history[length]? = some operation) :
    machine.stage history (length + 1) =
      (operation.apply (machine.stage history length)).machine := by
  obtain ⟨hlength, rfl⟩ := List.getElem?_eq_some_iff.mp hoperation
  exact stage_succ machine hlength

section Stage

variable {machine : Machine} {low : List UInt16} {history : List Operation} {length : Nat}

theorem Reachable.stage (hreach : machine.Reachable) (history : List Operation) (length : Nat) :
    (machine.stage history length).Reachable := hreach.after _

/-- The next operation of a history keeps addresses at the bottom of the stack, or takes the last of
them back and makes the stack as deep as the others reach. -/
theorem prefix_stage_succ (hreach : machine.Reachable) (hframe : .frame ∉ history)
    (hlength : length < history.length)
    (hlow : low <+: (machine.stage history length).stack.held) :
    low <+: (machine.stage history (length + 1)).stack.held ∨
      (history[length]? = some .cycle ∧ (machine.stage history length).returns = true ∧
        low.length = (machine.stage history (length + 1)).stack.depth + 1 ∧
        low = (machine.stage history (length + 1)).stack.held ++
          [(machine.stage history (length + 1)).pc]) := by
  have hother : history[length] ≠ .frame := by
    intro hsame
    exact hframe (hsame ▸ List.getElem_mem hlength)
  have hdepth := (hreach.stage history length).sound.pointer_le
  have hlater := (hreach.stage history (length + 1)).sound.pointer_le
  obtain hkept | ⟨hcycle, hreturns, htaken⟩ := prefix_step hdepth hlow hother
  · rw [stage_succ machine hlength]
    exact .inl hkept
  · rw [← stage_succ machine hlength] at htaken
    refine .inr ⟨?_, hreturns, ?_, htaken⟩
    · rw [List.getElem?_eq_getElem hlength, hcycle]
    · rw [htaken, List.length_append, CallStack.length_held hlater]
      rfl

/-- Addresses at the bottom of the stack stay there until the stack is no deeper than below the last
of them. -/
theorem prefix_stage (hreach : machine.Reachable) (hframe : .frame ∉ history)
    (hlow : low <+: machine.stack.held) (hlength : length ≤ history.length)
    (hdeep : ∀ earlier ≤ length, low.length ≤ (machine.stage history earlier).stack.depth) :
    low <+: (machine.stage history length).stack.held := by
  -- along the history: each step keeps them, because the other case of the step is too shallow
  induction length with
  | zero => exact hlow
  | succ length ih =>
    have hbefore := ih (Nat.le_of_succ_le hlength)
      fun earlier hearlier => hdeep earlier (Nat.le_succ_of_le hearlier)
    obtain hkept | ⟨-, -, hshallow, -⟩ := prefix_stage_succ hreach hframe hlength hbefore
    · exact hkept
    · have hnow := hdeep (length + 1) (Nat.le_refl _)
      omega

end Stage

/-- Addresses in use that are still at the bottom of another stack fill the same raw entries. -/
theorem entries_of_bottom {early late : CallStack} (hdepth : early.pointer ≤ stackSize)
    (hlow : early.held <+: late.held) :
    late.entries.toList.take early.depth = early.entries.toList.take early.depth := by
  have hraw : early.held <+: late.entries.toList := hlow.trans (List.take_prefix _ _)
  have htake := List.prefix_iff_eq_take.mp hraw
  rw [CallStack.length_held hdepth] at htake
  exact htake.symm

/-- One operation other than a frame makes the stack deeper by a call and shallower by a return. -/
theorem depth_step (machine : Machine) {operation : Operation} (hframe : operation ≠ .frame) :
    (operation.apply machine).machine.stack.depth +
        (if operation = .cycle ∧ machine.returns then 1 else 0) =
      machine.stack.depth + (if operation = .cycle ∧ machine.calls then 1 else 0) := by
  cases operation with
  | cycle =>
    show machine.cycle.machine.stack.depth + _ = _
    obtain ⟨hcalls, hreturns, hpush⟩ | ⟨hcalls, hreturns, hpop⟩ | ⟨hcalls, hreturns, hsame⟩ :=
      stack_cycle machine
    · have hdeeper := (CallStack.pointer_of_push hpush).2
      simpa [hcalls, hreturns, CallStack.depth] using hdeeper
    · have hshallower := CallStack.pointer_of_pop hpop
      simpa [hcalls, hreturns, CallStack.depth] using hshallower.symm
    · simp [hcalls, hreturns, hsame]
  | frame => exact absurd rfl hframe
  | key number down =>
    simp only [Operation.apply, setKey]
    cases machine.keypad.set number down <;> rfl
  | tick | speed => rfl

/-- Over a history the stack gets deeper by the calls and shallower by the returns. -/
theorem depth_after (machine : Machine) {history : List Operation} (hframe : .frame ∉ history) :
    (machine.after history).stack.depth + machine.count returns history =
      machine.stack.depth + machine.count calls history := by
  induction history generalizing machine with
  | nil => rfl
  | cons operation rest ih =>
    rw [List.mem_cons, not_or] at hframe
    have hstep := depth_step machine (Ne.symm hframe.1)
    have hrest := ih (operation.apply machine).machine hframe.2
    simp only [after, count]
    omega

/-! ## The matching return -/

section Call

variable {machine : Machine}

/-- A call with room on the stack succeeds, leaves the screen alone, and keeps the address behind
it. -/
theorem cycle_of_call (hlive : machine.status ≠ .crashed) (hfetch : machine.Fetches)
    (hfamily : machine.word.toNat / 0x1000 = 0x2) (hroom : machine.stack.depth < stackSize) :
    machine.cycle.result = .ok false ∧ machine.calls = true ∧
      machine.stack.push (machine.pc + 2) = .ok machine.cycle.machine.stack := by
  have hread := Instruction.decode_call hfamily
  have hfault : machine.fault? = none := (fault?_of_decode hfetch hread).trans (if_pos hroom)
  obtain ⟨-, instruction, next, records, hsame, hexecute, hcycle⟩ := cycle_of_done hlive hfault
  obtain rfl := Option.some.inj (hread.symm.trans hsame)
  have hresult : machine.cycle.result = .ok false := by
    rw [hcycle]
    rfl
  have hcalls : machine.calls = true := by
    simp [calls, hresult, hfamily, Except.isOk, Except.toBool]
  obtain ⟨-, -, hpush⟩ | ⟨hnone, -, -⟩ | ⟨hnone, -, -⟩ := stack_cycle machine
  · exact ⟨hresult, hcalls, hpush⟩
  · exact absurd (hcalls.symm.trans hnone) nofun
  · exact absurd (hcalls.symm.trans hnone) nofun

/-- While the stack is deeper than at a call, the entries below the call's own stay; the operation
that makes it as deep again is a return, and it leads behind the call. -/
theorem stage_of_call {later : Machine} {history : List Operation} {length : Nat}
    (hreach : machine.Reachable) (hlater : later.Reachable) (hfetch : machine.Fetches)
    (hpush : machine.stack.push (machine.pc + 2) = .ok later.stack)
    (hframe : .frame ∉ history) (hlength : length ≤ history.length)
    (hdeep : ∀ earlier ≤ length,
      machine.stack.depth < (later.stage history earlier).stack.depth) :
    let kept := machine.stack.entries.toList.take machine.stack.depth
    let next := later.stage history (length + 1)
    (later.stage history length).stack.entries.toList.take machine.stack.depth = kept ∧
      (length < history.length → next.stack.depth ≤ machine.stack.depth →
        history[length]? = some .cycle ∧ (later.stage history length).returns = true ∧
          next.stack.depth = machine.stack.depth ∧ next.pc.toNat = machine.pc.toNat + 2 ∧
          next.stack.entries.toList.take machine.stack.depth = kept) := by
  have hdepth := hreach.sound.pointer_le
  have hheld := CallStack.held_push hpush
  have hsize : later.stack.held.length = machine.stack.depth + 1 := by
    rw [hheld, List.length_append, CallStack.length_held hdepth]
    rfl
  have hlow := prefix_stage hlater hframe (List.prefix_refl _) hlength
    fun earlier hearlier => hsize ▸ hdeep earlier hearlier
  have hbelow : machine.stack.held <+: (later.stage history length).stack.held :=
    (hheld ▸ List.prefix_append _ _).trans hlow
  refine ⟨entries_of_bottom hdepth hbelow, fun hmore hback => ?_⟩
  have hreached := (hlater.stage history (length + 1)).sound.pointer_le
  obtain hkept | ⟨hcycle, hreturns, hshallow, htaken⟩ := prefix_stage_succ hlater hframe hmore hlow
  · -- the return address would still be held, above the depth supposed
    have hcontra := hkept.length_le
    rw [hsize, CallStack.length_held hreached] at hcontra
    exact absurd hback (Nat.not_le_of_lt hcontra)
  · -- what was taken back is the address that the call has pushed
    rw [hheld] at htaken
    obtain ⟨hsame, haddress⟩ := List.append_inj' htaken rfl
    refine ⟨hcycle, hreturns, by omega, ?_, entries_of_bottom hdepth (hsame ▸ List.prefix_refl _)⟩
    rw [← List.singleton_inj.mp haddress]
    exact toNat_pc_add_two hfetch

end Call

/-- Calls and returns nest: whatever a host asks after a call, the entries of the stack below it
stay until the stack is as deep as before the call, which it is first after a return that leads
behind the call.  The depth is the number of calls less the number of returns since the start. -/
theorem calls_nest :
    (∀ (machine : Machine) (operations : List Operation), machine.Reachable →
      machine.status ≠ .crashed → machine.Fetches → machine.word.toNat / 0x1000 = 0x2 →
      machine.stack.depth < stackSize →
      let callee := machine.cycle.machine
      let history := callee.unroll operations
      let kept := machine.stack.entries.toList.take machine.stack.depth
      machine.cycle.result = .ok false ∧ callee.stack.depth = machine.stack.depth + 1 ∧
        callee.after history = callee.after operations ∧ .frame ∉ history ∧
        ∀ length ≤ history.length,
          (∀ earlier ≤ length,
            machine.stack.depth < (callee.stage history earlier).stack.depth) →
          let next := callee.stage history (length + 1)
          (callee.stage history length).stack.entries.toList.take machine.stack.depth = kept ∧
            (length < history.length → next.stack.depth ≤ machine.stack.depth →
              history[length]? = some .cycle ∧ (callee.stage history length).returns = true ∧
                next.stack.depth = machine.stack.depth ∧ next.pc.toNat = machine.pc.toNat + 2 ∧
                next.stack.entries.toList.take machine.stack.depth = kept)) ∧
      ∀ (program : Program) (settings : Settings) (hostKey : Keystream.Key) (start : Machine)
        (operations : List Operation), (boot program settings hostKey).result = .ok start →
        let history := start.unroll operations
        start.after history = start.after operations ∧ .frame ∉ history ∧
          (start.after operations).stack.depth + start.count returns history =
            start.count calls history ∧
          (start.after operations).stack.depth ≤ stackSize := by
  constructor
  · intro machine operations hreach hlive hfetch hfamily hroom callee history kept
    obtain ⟨hresult, -, hpush⟩ := cycle_of_call hlive hfetch hfamily hroom
    have hframe := frame_notMem_unroll callee operations
    have hdeeper := (CallStack.pointer_of_push hpush).2
    refine ⟨hresult, hdeeper, after_unroll callee operations, hframe, ?_⟩
    intro length hlength hdeep
    exact stage_of_call hreach (hreach.after [.cycle]) hfetch hpush hframe hlength hdeep
  · intro program settings hostKey start operations hboot history
    have hframe := frame_notMem_unroll start operations
    have hafter := after_unroll start operations
    have hdepth := depth_after start hframe
    have hreach : (start.after operations).Reachable :=
      ⟨program, settings, hostKey, start, operations, hboot, rfl⟩
    refine ⟨hafter, hframe, ?_, hreach.sound.pointer_le⟩
    obtain ⟨-, -, -, rfl⟩ := boot_eq_ok_iff.mp hboot
    rw [hafter] at hdepth
    exact hdepth.trans (Nat.zero_add _)

/-- A called routine calls another, a key is pressed meanwhile, and both return; the second return
leads behind the first call. -/
theorem calls_nest_twice :
    let program : Program := ⟨[0x22, 0x06, 0, 0, 0, 0, 0x22, 0x0A, 0x00, 0xEE, 0x00, 0xEE]⟩
    let start := loaded program {} (.ofSeed 0)
    let callee := start.cycle.machine
    let history := [.cycle, .key 3 true, .cycle, .cycle]
    (boot program {} (.ofSeed 0)).result = .ok start ∧
      (start.status ≠ .crashed ∧ start.Fetches ∧ start.word.toNat / 0x1000 = 0x2 ∧
        start.stack.depth < stackSize ∧ callee.unroll history = history ∧
        (∀ earlier ≤ 3, 0 < (callee.stage history earlier).stack.depth) ∧
        (callee.stage history 4).stack.depth ≤ 0) ∧
      (callee.stage history 3).returns = true ∧ (callee.stage history 4).pc.toNat = 0x202 ∧
      (start.after (.cycle :: history)).stack.depth +
          start.count returns (start.unroll (.cycle :: history)) =
        start.count calls (start.unroll (.cycle :: history)) := by
  intro program start callee history
  have hboot : (boot program {} (.ofSeed 0)).result = .ok start :=
    boot_eq_ok_iff.mpr ⟨by decide, by decide, by decide, rfl⟩
  have hreach : start.Reachable := ⟨_, _, _, start, [], hboot, rfl⟩
  have hrun : start.status ≠ .crashed ∧ start.Fetches ∧ start.word.toNat / 0x1000 = 0x2 ∧
      start.stack.depth < stackSize ∧ callee.unroll history = history ∧
      (∀ earlier ≤ 3, 0 < (callee.stage history earlier).stack.depth) ∧
      (callee.stage history 4).stack.depth ≤ 0 := by
    decide +kernel
  obtain ⟨hlive, hfetch, hfamily, hroom, hhistory, hdeep, hback⟩ := hrun
  obtain ⟨-, -, -, -, hmatched⟩ := calls_nest.1 start history hreach hlive hfetch hfamily hroom
  rw [show start.cycle.machine.unroll history = history from hhistory] at hmatched
  obtain ⟨-, hreturn⟩ := hmatched 3 (by decide) hdeep
  obtain ⟨-, hreturns, -, hpc, -⟩ := hreturn (by decide) hback
  obtain ⟨-, -, hcounted, -⟩ := calls_nest.2 program {} _ start (.cycle :: history) hboot
  exact ⟨hboot, ⟨hlive, hfetch, hfamily, hroom, hhistory, hdeep, hback⟩, hreturns, hpc, hcounted⟩

end Machine
end Chip8
