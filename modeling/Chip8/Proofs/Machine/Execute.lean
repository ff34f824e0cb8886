import Chip8.Machine.Execute

/-!
# When an instruction is refused, and what it does otherwise

* `Machine.refusal` — the fault of an instruction on the machine that stands at it, if it has one.
* `execute_eq_error_iff` — an instruction is refused exactly with its `refusal`.
* `Machine.Effect` — what an instruction that is not refused makes of the machine, case by case.
* `execute_eq_ok_iff` — an instruction succeeds exactly with its `Effect`.
* `stack_of_execute` — calls push, returns pop, and nothing else touches the stack.
* `status_of_execute` — only the instruction that asks for a key touches the status.
* `config_of_execute` — what no instruction changes.
-/

namespace Chip8

theorem bind_eq_ok_iff {ε α β : Type} {first : Except ε α} {next : α → Except ε β} {value : β} :
    (first >>= next) = .ok value ↔ ∃ middle, first = .ok middle ∧ next middle = .ok value := by
  cases first with
  | error stop => simp [bind, Except.bind]
  | ok middle => simp [bind, Except.bind]

theorem bind_eq_error_iff {ε α β : Type} {first : Except ε α} {next : α → Except ε β} {stop : ε} :
    (first >>= next) = .error stop ↔
      first = .error stop ∨ ∃ middle, first = .ok middle ∧ next middle = .error stop := by
  cases first with
  | error other => simp [bind, Except.bind]
  | ok middle => simp [bind, Except.bind]

namespace Machine

/-- The fault of an access to bytes from the index register on, if they do not lie in memory. -/
def accessRefusal (machine : Machine) (length : Nat) : Option Fault :=
  if machine.index.toNat + length ≤ memorySize then none
  else some (.addressOutOfBounds (max machine.index.toNat memorySize))

/-- The fault of an instruction on the machine that stands at it, if it has one. -/
def refusal (machine : Machine) : Instruction → Option Fault
  | .ret => if machine.stack.pointer = 0 then some .stackEmpty else none
  | .call _ => if machine.stack.pointer < stackSize then none else some .stackFull
  | .jumpOffset base =>
      if machine.jumpTarget base < memorySize then none
      else some (.addressOutOfBounds (machine.jumpTarget base))
  | .draw _ _ rows => machine.accessRefusal rows.val
  | .storeDecimal _ => machine.accessRefusal 3
  | .storeBlock x | .loadBlock x => machine.accessRefusal (x.val + 1)
  | _ => none

/-- An instruction is refused exactly with its `refusal`. -/
theorem execute_eq_error_iff (machine : Machine) (instruction : Instruction) (fault : Fault) :
    machine.execute instruction = .error fault ↔ machine.refusal instruction = some fault := by
  cases instruction with
  | ret =>
    simp only [execute, refusal, CallStack.pop, bind_eq_error_iff]
    split <;> simp [pure, Except.pure]
  | call target =>
    simp only [execute, refusal, CallStack.push, bind_eq_error_iff]
    split <;> simp [pure, Except.pure]
  | jumpOffset base =>
    simp only [execute, refusal]
    split <;> simp
  | draw x y rows =>
    simp only [execute, refusal, accessRefusal, Memory.read_eq, bind_eq_error_iff]
    split <;> simp [pure, Except.pure]
  | storeDecimal x =>
    simp only [execute, refusal, accessRefusal, Memory.write_eq, decimalDigits, bind_eq_error_iff,
      List.length_cons, List.length_nil]
    split <;> simp [pure, Except.pure]
  | storeBlock x =>
    simp only [execute, refusal, accessRefusal, Memory.write_eq, Registers.length_upTo,
      bind_eq_error_iff]
    split <;> simp [pure, Except.pure]
  | loadBlock x =>
    simp only [execute, refusal, accessRefusal, Memory.read_eq, bind_eq_error_iff]
    split <;> simp [pure, Except.pure]
  | waitKey x =>
    simp only [execute, refusal]
    split <;> simp
  | _ => simp [execute, refusal]

/-- What an instruction that is not refused makes of the machine that stands at it. -/
inductive Effect (machine : Machine) : Instruction → Machine → Prop
  | clearScreen : Effect machine .clearScreen { machine.goOn with screen := .blank }
  | ret {target : UInt16} {stack : CallStack} : machine.stack.pop = .ok (target, stack) →
      Effect machine .ret { machine with pc := target, stack }
  | machineCall {target : Address} : Effect machine (.machineCall target) machine.goOn
  | jump {target : Address} :
      Effect machine (.jump target) { machine with pc := UInt16.ofNat target.val }
  | call {target : Address} {stack : CallStack} :
      machine.stack.push (machine.pc + 2) = .ok stack →
      Effect machine (.call target) { machine with pc := UInt16.ofNat target.val, stack }
  | skip {condition : Condition} : machine.holds condition = true →
      Effect machine (.skipIf condition) machine.goOn.goOn
  | noSkip {condition : Condition} : machine.holds condition = false →
      Effect machine (.skipIf condition) machine.goOn
  | setByte {x : Digit} {nn : UInt8} :
      Effect machine (.setByte x nn) (machine.goOn.setRegister x nn)
  | addByte {x : Digit} {nn : UInt8} :
      Effect machine (.addByte x nn)
        (machine.goOn.setRegister x (machine.registers.get x + nn))
  | combine {op : Combine} {x y : Digit} :
      Effect machine (.combine op x y)
        { machine.goOn with registers := machine.registers.combine machine.dialect op x y }
  | setIndex {target : Address} :
      Effect machine (.setIndex target)
        { machine.goOn with index := UInt16.ofNat target.val }
  | jumpOffset {base : Address} : machine.jumpTarget base < memorySize →
      Effect machine (.jumpOffset base)
        { machine with pc := UInt16.ofNat (machine.jumpTarget base) }
  | random {x : Digit} {nn : UInt8} :
      Effect machine (.random x nn)
        { machine.goOn.setRegister x (machine.random.peek &&& nn) with
          random := machine.random.advance }
  | draw {x y rows : Digit} {sprite : List UInt8} {screen : Screen} {hit : Bool} :
      machine.memory.read machine.index.toNat rows.val = .ok sprite →
      Screen.draw machine.dialect.edge (machine.registers.get x).toNat
        (machine.registers.get y).toNat sprite machine.screen = (screen, hit) →
      Effect machine (.draw x y rows)
        { machine.goOn.setRegister Registers.flag (flagOf hit) with screen }
  | readDelay {x : Digit} :
      Effect machine (.readDelay x) (machine.goOn.setRegister x machine.timers.delay)
  | resume {x key : Digit} : machine.keypad.firstPressed = some key →
      Effect machine (.waitKey x)
        { machine.goOn.setRegister x (UInt8.ofNat key.val) with status := .running }
  | wait {x : Digit} : machine.keypad.firstPressed = none →
      Effect machine (.waitKey x) { machine with status := .waitingForKeypress }
  | setDelay {x : Digit} :
      Effect machine (.setDelay x) { machine.goOn with
        timers := { machine.timers with delay := machine.registers.get x } }
  | setSound {x : Digit} :
      Effect machine (.setSound x) { machine.goOn with
        timers := { machine.timers with sound := machine.registers.get x } }
  | addIndex {x : Digit} :
      Effect machine (.addIndex x)
        { machine.goOn with index := machine.index + (machine.registers.get x).toUInt16 }
  | pointGlyph {x : Digit} :
      Effect machine (.pointGlyph x) { machine.goOn with
        index := UInt16.ofNat
          (machine.fontStart.toNat + Font.offset (.low (machine.registers.get x))) }
  | storeDecimal {x : Digit} {memory : Memory} :
      machine.memory.write machine.index.toNat (decimalDigits (machine.registers.get x)) =
        .ok memory →
      Effect machine (.storeDecimal x) { machine.goOn with memory }
  | storeBlock {x : Digit} {memory : Memory} :
      machine.memory.write machine.index.toNat (machine.registers.upTo x) = .ok memory →
      Effect machine (.storeBlock x)
        { machine.goOn with memory, index := machine.indexAfterBlock x }
  | loadBlock {x : Digit} {bytes : List UInt8} :
      machine.memory.read machine.index.toNat (x.val + 1) = .ok bytes →
      Effect machine (.loadBlock x) { machine.goOn with
        registers := machine.registers.load bytes, index := machine.indexAfterBlock x }

/-- An instruction succeeds exactly with its effect. -/
theorem execute_eq_ok_iff {machine next : Machine} {instruction : Instruction} :
    machine.execute instruction = .ok next ↔ machine.Effect instruction next := by
  constructor
  · intro hnext
    cases instruction with
    | ret =>
      obtain ⟨⟨target, stack⟩, hpop, hdone⟩ := bind_eq_ok_iff.mp hnext
      cases hdone
      exact .ret hpop
    | call target =>
      obtain ⟨stack, hpush, hdone⟩ := bind_eq_ok_iff.mp hnext
      cases hdone
      exact .call hpush
    | skipIf condition =>
      cases hnext
      cases hholds : machine.holds condition with
      | true => exact .skip hholds
      | false => exact .noSkip hholds
    | jumpOffset base =>
      simp only [execute] at hnext
      split at hnext <;> cases hnext
      next hinside => exact .jumpOffset hinside
    | draw x y rows =>
      obtain ⟨sprite, hread, hdone⟩ := bind_eq_ok_iff.mp hnext
      cases hdone
      exact .draw hread rfl
    | waitKey x =>
      simp only [execute] at hnext
      split at hnext <;> cases hnext
      · next key hkey => exact .resume hkey
      · next hkey => exact .wait hkey
    | storeDecimal x =>
      obtain ⟨memory, hwrite, hdone⟩ := bind_eq_ok_iff.mp hnext
      cases hdone
      exact .storeDecimal hwrite
    | storeBlock x =>
      obtain ⟨memory, hwrite, hdone⟩ := bind_eq_ok_iff.mp hnext
      cases hdone
      exact .storeBlock hwrite
    | loadBlock x =>
      obtain ⟨bytes, hread, hdone⟩ := bind_eq_ok_iff.mp hnext
      cases hdone
      exact .loadBlock hread
    | _ =>
      cases hnext
      constructor
  · intro heffect
    cases heffect with
    | ret hpop => exact bind_eq_ok_iff.mpr ⟨_, hpop, rfl⟩
    | call hpush => exact bind_eq_ok_iff.mpr ⟨_, hpush, rfl⟩
    | skip hholds | noSkip hholds => simp only [execute, hholds]; rfl
    | jumpOffset hinside => exact if_pos hinside
    | draw hread hdrawn =>
      refine bind_eq_ok_iff.mpr ⟨_, hread, ?_⟩
      simp only [hdrawn]
      rfl
    | resume hkey | wait hkey => simp only [execute, hkey]
    | storeDecimal hwrite | storeBlock hwrite => exact bind_eq_ok_iff.mpr ⟨_, hwrite, rfl⟩
    | loadBlock hread => exact bind_eq_ok_iff.mpr ⟨_, hread, rfl⟩
    | _ => rfl

/-- Calls push, returns pop and go where they came from, and nothing else touches the stack. -/
theorem stack_of_execute {machine next : Machine} {instruction : Instruction}
    (hnext : machine.execute instruction = .ok next) :
    (∃ target, instruction = .call target ∧ machine.stack.push (machine.pc + 2) = .ok next.stack) ∨
      (instruction = .ret ∧ machine.stack.pop = .ok (next.pc, next.stack)) ∨
      ((∀ target, instruction ≠ .call target) ∧ instruction ≠ .ret ∧
        next.stack = machine.stack) := by
  cases execute_eq_ok_iff.mp hnext with
  | call hpush => exact .inl ⟨_, rfl, hpush⟩
  | ret hpop => exact .inr (.inl ⟨rfl, hpop⟩)
  | _ => exact .inr (.inr ⟨nofun, nofun, rfl⟩)

/-- The instruction that asks for a key starts the machine or lets it wait, and no other instruction
touches the status. -/
theorem status_of_execute {machine next : Machine} {instruction : Instruction}
    (hnext : machine.execute instruction = .ok next) :
    (∃ x, instruction = .waitKey x ∧ (next.status = .running ∨
        next = { machine with status := .waitingForKeypress })) ∨
      ((∀ x, instruction ≠ .waitKey x) ∧ next.status = machine.status) := by
  cases execute_eq_ok_iff.mp hnext with
  | resume hkey => exact .inl ⟨_, rfl, .inl rfl⟩
  | wait hkey => exact .inl ⟨_, rfl, .inr rfl⟩
  | _ => exact .inr ⟨nofun, rfl⟩

/-- What no instruction changes. -/
theorem config_of_execute {machine next : Machine} {instruction : Instruction}
    (hnext : machine.execute instruction = .ok next) :
    next.keypad = machine.keypad ∧ next.cycles = machine.cycles ∧
      next.fontStart = machine.fontStart ∧ next.programStart = machine.programStart ∧
      next.speed = machine.speed ∧ next.dialect = machine.dialect := by
  cases execute_eq_ok_iff.mp hnext <;> exact ⟨rfl, rfl, rfl, rfl, rfl, rfl⟩

theorem toNat_pc_goOn {machine : Machine} (hroom : machine.pc.toNat ≤ memorySize) :
    machine.goOn.pc.toNat = machine.pc.toNat + 2 := by
  show (machine.pc + 2).toNat = machine.pc.toNat + 2
  have hsize : memorySize = 4096 := rfl
  have htwo : (2 : UInt16).toNat = 2 := rfl
  rw [UInt16.toNat_add, htwo]
  exact Nat.mod_eq_of_lt (by omega)

/-- From an address at which a word fits, an instruction leads at most one skip beyond memory, if
the return addresses lie in memory. -/
theorem pc_of_execute {machine next : Machine} {instruction : Instruction}
    (hfetch : machine.pc.toNat + 2 ≤ memorySize)
    (hheld : ∀ address ∈ machine.stack.held, address.toNat ≤ memorySize)
    (hdepth : machine.stack.pointer ≤ stackSize)
    (hnext : machine.execute instruction = .ok next) : next.pc.toNat ≤ memorySize + 2 := by
  have hsize : memorySize = 4096 := rfl
  have hgoOn : machine.goOn.pc.toNat = machine.pc.toNat + 2 := toNat_pc_goOn (by omega)
  cases execute_eq_ok_iff.mp hnext with
  | ret hpop =>
    -- the only target that is not bounded by the word itself
    refine Nat.le_add_right_of_le (hheld _ ?_)
    rw [CallStack.held_pop hdepth hpop]
    exact List.mem_append_right _ (List.mem_singleton_self _)
  | @call target stack hpush =>
    show (UInt16.ofNat target.val).toNat ≤ memorySize + 2
    rw [UInt16.toNat_ofNat']
    omega
  | @jump target =>
    show (UInt16.ofNat target.val).toNat ≤ memorySize + 2
    rw [UInt16.toNat_ofNat']
    omega
  | @jumpOffset base hinside =>
    show (UInt16.ofNat (machine.jumpTarget base)).toNat ≤ memorySize + 2
    rw [UInt16.toNat_ofNat']
    omega
  | skip hholds =>
    -- the word skipped may be the first one beyond memory
    rw [toNat_pc_goOn (by omega)]
    omega
  | wait hkey =>
    -- no key is pressed, and the same word is fetched again
    show machine.pc.toNat ≤ memorySize + 2
    omega
  | _ =>
    show machine.goOn.pc.toNat ≤ memorySize + 2
    omega

end Machine
end Chip8
