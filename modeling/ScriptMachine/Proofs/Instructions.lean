import ScriptMachine.Compiler.Generation
import ScriptMachine.Proofs.FrameParts
import ScriptMachine.Proofs.Provenance

/-!
# What instructions do

On a frame that is given by its parts and has the operands that an instruction takes, the
instruction takes them, asks the world for the rest, and puts its result on top.  Each lemma says so
for one instruction.

## Main definitions

* `Core.after` — the result of an instruction that is decided by the world.

## Main results

* `Core.execute_constInt`, `Core.execute_call`, … — one lemma for each instruction.
* `Core.popRoutine_eq` — the operands of a function definition.
-/

set_option autoImplicit false

namespace ScriptMachine

namespace Core

open ScriptMachine.Frame (ofParts)
open Update (bind_apply pure_apply throw_apply lift_apply)

/-- What an instruction does when the world has done its part: it leaves the frame `next a` with the
result `a`, or the frame `failed` with a fault. -/
def after {α : Type} (r : EStateM.Result Fault World α) (next : α → Frame) (failed : Frame) :
    EStateM.Result Fault Core Flow :=
  match r with
  | .ok a w => .ok .next ⟨next a, w⟩
  | .error fault w => .error fault ⟨failed, w⟩

variable {pc room : Nat} {ls : List (Option Value)} {os : List Value} {w : World}

/-! ## Operands -/

/-- A push puts the value on top, if there is room. -/
lemma push_eq {v : Value} (h : os.length < room) :
    push v ⟨ofParts pc ls os room, w⟩ = .ok () ⟨ofParts pc ls (v :: os) room, w⟩ := by
  simp only [push, onFrame, Frame.push_ofParts h]

/-- A pop takes the value from the top. -/
lemma pop_eq {v : Value} (h : os.length < room) :
    pop ⟨ofParts pc ls (v :: os) room, w⟩ = .ok v ⟨ofParts pc ls os room, w⟩ := by
  simp only [pop, onFrame, Frame.pop_ofParts h]

/-- Popping several operands takes the topmost ones, in the order in which they were pushed. -/
lemma popMany_eq {vs : List Value} {n : Nat} (hn : vs.length = n) (h : n + os.length ≤ room) :
    popMany n ⟨ofParts pc ls (vs.reverse ++ os) room, w⟩ = .ok vs ⟨ofParts pc ls os room, w⟩ := by
  subst hn
  simp only [popMany, onFrame, Frame.popMany_ofParts vs h]

/-- An operation on the world leaves the frame as it is. -/
lemma onWorld_eq {α : Type} (u : Update World α) (f : Frame) :
    onWorld u ⟨f, w⟩ =
      match u w with
      | .ok a w => .ok a ⟨f, w⟩
      | .error fault w => .error fault ⟨f, w⟩ := rfl

/-- The count that an instruction carries is read. -/
lemma count_nat (op : Opcode) (n : Nat) : (Instruction.nat op n).count pc = .ok n := by
  simp [Instruction.count, Instruction.integer, Instruction.nat, Instruction.intOperand?]

/-- An instruction that ends by putting a value of the world on top. -/
lemma push_onWorld (u : Update World Value) (h : os.length < room) :
    (do push (← onWorld u); return .next : Update Core Flow) ⟨ofParts pc ls os room, w⟩ =
      after (u w) (fun v => ofParts pc ls (v :: os) room) (ofParts pc ls os room) := by
  simp only [bind_apply, onWorld_eq]
  cases u w with
  | ok v w' => simp only [push_eq h, pure_apply, after]
  | error fault w' => rfl

/-- An instruction that ends by putting the result of a computation on top. -/
lemma push_lift (x : Except Fault Value) (h : os.length < room) :
    (do push (← x); return .next : Update Core Flow) ⟨ofParts pc ls os room, w⟩ =
      after ((liftM x : Update World Value) w) (fun v => ofParts pc ls (v :: os) room)
        (ofParts pc ls os room) := by
  simp only [bind_apply, lift_apply]
  cases x with
  | ok v => simp only [push_eq h, pure_apply, after]
  | error fault => rfl

/-! ## Constants -/

/-- A constant is put on top. -/
lemma execute_constInt (n : Int) (h : os.length < room) :
    execute (.int .constInt n) pc ⟨ofParts (pc + 1) ls os room, w⟩ =
      .ok .next ⟨ofParts (pc + 1) ls (.int n :: os) room, w⟩ := by
  simp only [execute, Instruction.int, Instruction.integer, Instruction.intOperand?, bind_apply,
    lift_apply, push_eq h, pure_apply]

/-- A count is put on top. -/
lemma execute_argCount (n : Int) (h : os.length < room) :
    execute (.int .argCount n) pc ⟨ofParts (pc + 1) ls os room, w⟩ =
      .ok .next ⟨ofParts (pc + 1) ls (.int n :: os) room, w⟩ := by
  simp only [execute, Instruction.int, Instruction.integer, Instruction.intOperand?, bind_apply,
    lift_apply, push_eq h, pure_apply]

/-- A string, the name of a parameter and the name of a method are put on top. -/
lemma execute_text {op : Opcode} (hop : op = .string ∨ op = .arg ∨ op = .loadMethod) (s : String)
    (h : os.length < room) :
    execute (.text op s) pc ⟨ofParts (pc + 1) ls os room, w⟩ =
      .ok .next ⟨ofParts (pc + 1) ls (.str s :: os) room, w⟩ := by
  rcases hop with rfl | rfl | rfl <;>
    simp only [execute, Instruction.text, Instruction.name, Instruction.textOperand?, bind_apply,
      lift_apply, push_eq h, pure_apply]

/-! ## Variables -/

/-- The value of a local is put on top. -/
lemma execute_loadLocal {slot : Nat} {v : Value} (hv : ls[slot]? = some (some v))
    (h : os.length < room) :
    execute (.nat .loadLocal slot) pc ⟨ofParts (pc + 1) ls os room, w⟩ =
      .ok .next ⟨ofParts (pc + 1) ls (v :: os) room, w⟩ := by
  have hcount : (Instruction.nat .loadLocal slot).count pc = .ok slot := count_nat ..
  simp only [execute, Instruction.nat] at hcount ⊢
  simp only [hcount, bind_apply, lift_apply, onFrame, Frame.load_ofParts hv, push_eq h, pure_apply]

/-- A local without a value cannot be loaded. -/
lemma execute_loadLocal_none {slot : Nat} (hv : ls[slot]? = some none) :
    execute (.nat .loadLocal slot) pc ⟨ofParts (pc + 1) ls os room, w⟩ =
      .error (.unassignedLocal slot) ⟨ofParts (pc + 1) ls os room, w⟩ := by
  have hcount : (Instruction.nat .loadLocal slot).count pc = .ok slot := count_nat ..
  simp only [execute, Instruction.nat] at hcount ⊢
  simp only [hcount, bind_apply, lift_apply, onFrame, Frame.load_ofParts_none hv]

/-- The value on top becomes that of the local. -/
lemma execute_storeLocal {slot : Nat} (v : Value) (hslot : slot < ls.length)
    (h : os.length < room) :
    execute (.nat .storeLocal slot) pc ⟨ofParts (pc + 1) ls (v :: os) room, w⟩ =
      .ok .next ⟨ofParts (pc + 1) (ls.set slot (some v)) os room, w⟩ := by
  have hcount : (Instruction.nat .storeLocal slot).count pc = .ok slot := count_nat ..
  simp only [execute, Instruction.nat] at hcount ⊢
  simp only [hcount, bind_apply, lift_apply, pop_eq h, onFrame, Frame.store_ofParts v hslot,
    pure_apply]

/-- The value of a global is put on top, if there is one. -/
lemma execute_loadGlobal (name : String) (h : os.length < room) :
    execute (.text .loadGlobal name) pc ⟨ofParts (pc + 1) ls os room, w⟩ =
      after (World.getGlobal name w) (fun v => ofParts (pc + 1) ls (v :: os) room)
        (ofParts (pc + 1) ls os room) := by
  rw [← push_onWorld _ h]
  simp only [execute, Instruction.text, Instruction.name, Instruction.textOperand?, bind_apply,
    lift_apply]

/-- The value on top becomes that of the global. -/
lemma execute_storeGlobal (name : String) (v : Value) (h : os.length < room) :
    execute (.text .storeGlobal name) pc ⟨ofParts (pc + 1) ls (v :: os) room, w⟩ =
      after (World.setGlobal name v w) (fun _ => ofParts (pc + 1) ls os room)
        (ofParts (pc + 1) ls os room) := by
  simp only [execute, Instruction.text, Instruction.name, Instruction.textOperand?, bind_apply,
    lift_apply, pop_eq h, onWorld_eq]
  rfl

/-- The value on top is dropped. -/
lemma execute_pop (v : Value) (h : os.length < room) :
    execute (.bare .pop) pc ⟨ofParts (pc + 1) ls (v :: os) room, w⟩ =
      .ok .next ⟨ofParts (pc + 1) ls os room, w⟩ := by
  simp only [execute, Instruction.bare, bind_apply, pop_eq h, pure_apply]

/-! ## Control flow -/

/-- A jump goes on at its target. -/
lemma execute_jump (target : Nat) :
    execute (.nat .jump target) pc ⟨ofParts (pc + 1) ls os room, w⟩ =
      .ok .next ⟨ofParts target ls os room, w⟩ := by
  have hcount : (Instruction.nat .jump target).count pc = .ok target := count_nat ..
  simp only [execute, Instruction.nat] at hcount ⊢
  simp only [hcount, bind_apply, lift_apply, jump, onFrame, Frame.jump_ofParts, pure_apply]

/-- A conditional jump takes the value on top, and goes to its target if that is not true. -/
lemma execute_jne (target : Nat) (v : Value) (h : os.length < room) :
    execute (.nat .jne target) pc ⟨ofParts (pc + 1) ls (v :: os) room, w⟩ =
      after (World.truth v w)
        (fun b => ofParts (if b then pc + 1 else target) ls os room)
        (ofParts (pc + 1) ls os room) := by
  have hcount : (Instruction.nat .jne target).count pc = .ok target := count_nat ..
  simp only [execute, Instruction.nat] at hcount ⊢
  simp only [hcount, bind_apply, lift_apply, pop_eq h, onWorld_eq]
  cases World.truth v w with
  | ok b w' => cases b <;> rfl
  | error fault w' => rfl

/-- An assertion takes the value on top, and fails if that is not true. -/
lemma execute_assert (v : Value) (h : os.length < room) :
    execute (.bare .assert) pc ⟨ofParts (pc + 1) ls (v :: os) room, w⟩ =
      match World.truth v w with
      | .ok true w => .ok .next ⟨ofParts (pc + 1) ls os room, w⟩
      | .ok false w => .error .assertionFailed ⟨ofParts (pc + 1) ls os room, w⟩
      | .error fault w => .error fault ⟨ofParts (pc + 1) ls os room, w⟩ := by
  simp only [execute, Instruction.bare, bind_apply, pop_eq h, onWorld_eq]
  cases World.truth v w with
  | ok b w' => cases b <;> rfl
  | error fault w' => rfl

/-! ## Operators -/

/-- A comparison puts its result in the place of two operands, the right one on top. -/
lemma execute_comp (op : Comparison) (left right : Value) (h : os.length + 1 < room) :
    execute (.text .comp op.symbol) pc ⟨ofParts (pc + 1) ls (right :: left :: os) room, w⟩ =
      after ((liftM (Value.compare op left right) : Update World Value) w)
        (fun v => ofParts (pc + 1) ls (v :: os) room) (ofParts (pc + 1) ls os room) := by
  have h' : (left :: os).length < room := h
  rw [← push_lift _ (by omega)]
  simp only [execute, Instruction.text, Instruction.comparison, Instruction.name,
    Instruction.textOperand?, Comparison.ofSymbol?_symbol, bind_apply, lift_apply, pop_eq h',
    pop_eq (by omega : os.length < room)]

/-- An arithmetic operation puts its result in the place of two operands, the right one on top. -/
lemma execute_arithmetic (op : Arithmetic) (left right : Value) (h : os.length + 1 < room) :
    execute (.bare op.opcode) pc ⟨ofParts (pc + 1) ls (right :: left :: os) room, w⟩ =
      after ((liftM (Value.arithmetic op left right) : Update World Value) w)
        (fun v => ofParts (pc + 1) ls (v :: os) room) (ofParts (pc + 1) ls os room) := by
  have h' : (left :: os).length < room := h
  rw [← push_lift _ (by omega)]
  cases op <;>
    simp only [execute, Instruction.bare, Arithmetic.opcode, arithmetic, bind_apply, lift_apply,
      pop_eq h', pop_eq (by omega : os.length < room)] <;>
    cases Value.arithmetic _ left right <;>
    simp only [push_eq (by omega : os.length < room), pure_apply]

/-! ## Lists, attributes and methods -/

/-- The value on top is taken and printed. -/
lemma execute_print (v : Value) (h : os.length < room) :
    execute (.bare .print) pc ⟨ofParts (pc + 1) ls (v :: os) room, w⟩ =
      after (World.print v w) (fun _ => ofParts (pc + 1) ls os room)
        (ofParts (pc + 1) ls os room) := by
  simp only [execute, Instruction.bare, bind_apply, pop_eq h, onWorld_eq]
  cases World.print v w <;> rfl

/-- The operands that were pushed last become the elements of a new list, in their order. -/
lemma execute_createList {n : Nat} {vs : List Value} (hn : vs.length = n)
    (h : n + os.length ≤ room) (h' : os.length < room) :
    execute (.nat .createList n) pc ⟨ofParts (pc + 1) ls (vs.reverse ++ os) room, w⟩ =
      after (World.makeList vs w) (fun v => ofParts (pc + 1) ls (v :: os) room)
        (ofParts (pc + 1) ls os room) := by
  have hcount : (Instruction.nat .createList n).count pc = .ok n := count_nat ..
  rw [← push_onWorld _ h']
  simp only [execute, Instruction.nat] at hcount ⊢
  simp only [hcount, bind_apply, lift_apply, popMany_eq hn h]

/-- The element at an index takes the place of the list and the index. -/
lemma execute_getItem (target index : Value) (h : os.length + 1 < room) :
    execute (.bare .getItem) pc ⟨ofParts (pc + 1) ls (index :: target :: os) room, w⟩ =
      after (World.getItem target index w) (fun v => ofParts (pc + 1) ls (v :: os) room)
        (ofParts (pc + 1) ls os room) := by
  have h' : (target :: os).length < room := h
  rw [← push_onWorld _ (by omega)]
  simp only [execute, Instruction.bare, bind_apply, pop_eq h', pop_eq (by omega : os.length < room)]

/-- A list gets an element, and stays on top when the index and the value are taken. -/
lemma execute_setItem (target index v : Value) (h : os.length + 2 < room) :
    execute (.bare .setItem) pc ⟨ofParts (pc + 1) ls (v :: index :: target :: os) room, w⟩ =
      after (World.setItem target index v w) (fun _ => ofParts (pc + 1) ls (target :: os) room)
        (ofParts (pc + 1) ls os room) := by
  have h₁ : (index :: target :: os).length < room := h
  have h₂ : (target :: os).length < room := by simp; omega
  have h₃ : os.length < room := by omega
  simp only [execute, Instruction.bare, bind_apply, pop_eq h₁, pop_eq h₂, pop_eq h₃, onWorld_eq]
  cases World.setItem target index v w with
  | ok a w' => simp only [push_eq h₃, pure_apply, after]
  | error fault w' => rfl

/-- Two elements of a list are swapped, and the list stays on top when the indices are taken. -/
lemma execute_swapItem (target left right : Value) (h : os.length + 2 < room) :
    execute (.bare .swapItem) pc ⟨ofParts (pc + 1) ls (right :: left :: target :: os) room, w⟩ =
      after (World.swapItems target left right w)
        (fun _ => ofParts (pc + 1) ls (target :: os) room) (ofParts (pc + 1) ls os room) := by
  have h₁ : (left :: target :: os).length < room := h
  have h₂ : (target :: os).length < room := by simp; omega
  have h₃ : os.length < room := by omega
  simp only [execute, Instruction.bare, bind_apply, pop_eq h₁, pop_eq h₂, pop_eq h₃, onWorld_eq]
  cases World.swapItems target left right w with
  | ok a w' => simp only [push_eq h₃, pure_apply, after]
  | error fault w' => rfl

/-- An attribute takes the place of its value. -/
lemma execute_getAttr (v : Value) (name : String) (h : os.length < room) :
    execute (.text .getAttr name) pc ⟨ofParts (pc + 1) ls (v :: os) room, w⟩ =
      after (World.getAttribute v name w) (fun v => ofParts (pc + 1) ls (v :: os) room)
        (ofParts (pc + 1) ls os room) := by
  rw [← push_onWorld _ h]
  simp only [execute, Instruction.text, Instruction.name, Instruction.textOperand?, bind_apply,
    lift_apply, pop_eq h]

/-- The result of a method takes the place of the receiver, the name and the arguments. -/
lemma execute_callMethod {n : Nat} (receiver : Value) (method : String) {args : List Value}
    (hn : args.length = n) (h : n + os.length + 1 < room) :
    execute (.nat .callMethod n) pc
        ⟨ofParts (pc + 1) ls (args.reverse ++ .str method :: receiver :: os) room, w⟩ =
      after (World.callMethod receiver method args w)
        (fun v => ofParts (pc + 1) ls (v :: os) room) (ofParts (pc + 1) ls os room) := by
  have hcount : (Instruction.nat .callMethod n).count pc = .ok n := count_nat ..
  have h₁ : n + (Value.str method :: receiver :: os).length ≤ room := by simp; omega
  have h₂ : (receiver :: os).length < room := by simp; omega
  rw [← push_onWorld _ (by omega)]
  simp only [execute, Instruction.nat] at hcount ⊢
  simp only [hcount, bind_apply, lift_apply, popMany_eq hn h₁, pop_eq h₂,
    pop_eq (by omega : os.length < room)]

/-! ## Functions -/

/-- A function is entered with its arguments, if these are as many as it has parameters. -/
lemma execute_call_function {n : Nat} (id : FunctionId) (routine : Routine) {args : List Value}
    (hn : args.length = n) (h : n + os.length < room) :
    execute (.nat .call n) pc
        ⟨ofParts (pc + 1) ls (.function id routine :: (args.reverse ++ os)) room, w⟩ =
      if routine.arity = n then .ok (.enter routine args) ⟨ofParts (pc + 1) ls os room, w⟩
      else .error (.arityMismatch routine.name routine.arity n)
        ⟨ofParts (pc + 1) ls os room, w⟩ := by
  have hcount : (Instruction.nat .call n).count pc = .ok n := count_nat ..
  have h₁ : (args.reverse ++ os).length < room := by simp; omega
  simp only [execute, Instruction.nat] at hcount ⊢
  simp only [hcount, bind_apply, lift_apply, pop_eq h₁,
    popMany_eq hn (by omega : n + os.length ≤ room)]
  split <;> rfl

/-- Only functions can be called. -/
lemma execute_call_other {n : Nat} {v : Value} (hv : v.type ≠ .function) {args : List Value}
    (hn : args.length = n) (h : n + os.length < room) :
    execute (.nat .call n) pc ⟨ofParts (pc + 1) ls (v :: (args.reverse ++ os)) room, w⟩ =
      .error (.notCallable v.type) ⟨ofParts (pc + 1) ls os room, w⟩ := by
  have hcount : (Instruction.nat .call n).count pc = .ok n := count_nat ..
  have h₁ : (args.reverse ++ os).length < room := by simp; omega
  simp only [execute, Instruction.nat] at hcount ⊢
  simp only [hcount, bind_apply, lift_apply, pop_eq h₁,
    popMany_eq hn (by omega : n + os.length ≤ room)]
  cases v with
  | function id routine => exact absurd rfl hv
  | _ => rfl

/-- A return leaves the frame with the value on top. -/
lemma execute_ret (v : Value) (h : os.length < room) :
    execute (.nat .ret 1) pc ⟨ofParts (pc + 1) ls (v :: os) room, w⟩ =
      .ok (.leave v) ⟨ofParts (pc + 1) ls os room, w⟩ := by
  have hone : ¬ ((1 : Nat) : Int) = 0 := by decide
  simp only [execute, Instruction.nat, Instruction.integer, Instruction.intOperand?, bind_apply,
    lift_apply, if_neg hone, pop_eq h, pure_apply]

/-- A return without a value leaves the frame with zero. -/
lemma execute_retDefault (h : os.length < room) :
    execute (.nat .ret 0) pc ⟨ofParts (pc + 1) ls os room, w⟩ =
      .ok (.leave (.int 0)) ⟨ofParts (pc + 1) ls os room, w⟩ := by
  have hzero : ((0 : Nat) : Int) = 0 := rfl
  simp only [execute, Instruction.nat, Instruction.integer, Instruction.intOperand?, bind_apply,
    lift_apply, if_pos hzero, push_eq h, pop_eq h, pure_apply]

/-- A count is taken from the top. -/
lemma popCount_eq (n : Nat) (h : os.length < room) :
    popCount pc ⟨ofParts (pc + 1) ls (.int n :: os) room, w⟩ =
      .ok n ⟨ofParts (pc + 1) ls os room, w⟩ := by
  simp [popCount, bind_apply, pop_eq h, pure_apply]

/-- The names of parameters are taken from the top, the first one first. -/
lemma popParams_eq (params : List String) (h : params.length + os.length ≤ room) :
    popParams pc params.length ⟨ofParts (pc + 1) ls (params.map Value.str ++ os) room, w⟩ =
      .ok params ⟨ofParts (pc + 1) ls os room, w⟩ := by
  induction params with
  | nil => rfl
  | cons param params ih =>
    have hlen : (params.map Value.str ++ os).length < room := by
      simp only [List.length_cons] at h
      simp
      omega
    have htail := ih (by simp only [List.length_cons] at h; omega)
    simp only [List.length_cons, List.map_cons, List.cons_append, popParams, bind_apply,
      pop_eq hlen, htail, pure_apply]

/-- The counts and names on the stack are those of the function. -/
lemma popRoutine_eq (name : String) (params : List String) {locals depth : Nat}
    (hlocals : params.length ≤ locals) (h : params.length + 3 + os.length ≤ room) :
    popRoutine pc name
        ⟨ofParts (pc + 1) ls
          (.int params.length :: .int locals :: .int depth :: (params.map Value.str ++ os)) room,
          w⟩ =
      .ok { name, entry := pc + 2, params, locals, depth }
        ⟨ofParts (pc + 1) ls os room, w⟩ := by
  have h₁ : (Value.int locals :: .int depth :: (params.map Value.str ++ os)).length < room := by
    simp
    omega
  have h₂ : (Value.int depth :: (params.map Value.str ++ os)).length < room := by simp; omega
  have h₃ : (params.map Value.str ++ os).length < room := by simp; omega
  have hnames : params.length + os.length ≤ room := by omega
  simp only [popRoutine, bind_apply, popCount_eq _ h₁, popCount_eq _ h₂, popCount_eq _ h₃,
    if_neg (by omega : ¬ locals < params.length), popParams_eq _ hnames, pure_apply]

/-- A function definition takes the counts and names from the top, and defines the function whose
body starts behind the jump that follows. -/
lemma execute_makeFunc (name : String) (params : List String) {locals depth : Nat}
    (hlocals : params.length ≤ locals) (h : params.length + 3 + os.length ≤ room) :
    execute (.text .makeFunc name) pc
        ⟨ofParts (pc + 1) ls
          (.int params.length :: .int locals :: .int depth :: (params.map Value.str ++ os)) room,
          w⟩ =
      after (World.define { name, entry := pc + 2, params, locals, depth } w)
        (fun _ => ofParts (pc + 1) ls os room) (ofParts (pc + 1) ls os room) := by
  simp only [execute, Instruction.text, Instruction.name, Instruction.textOperand?, bind_apply,
    lift_apply, popRoutine_eq name params hlocals h, onWorld_eq]
  rfl

end Core

end ScriptMachine
