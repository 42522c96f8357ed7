import Tabletop.Proofs.Acceptance
import Tabletop.Proofs.Meaning

/-!
# Compiled programs do what they mean

`Carries` says that a run goes as some meaning does. It holds of every item at its place in the code
(`Item.carries`), by recursion on items: the run of a conditional stands at the start of a body, or
just past it, whenever its meaning does. So a run of the code ends as the program means
(`viewState_runCode`).
-/

namespace Tabletop

open Instruction

open Exec (jumpTo popBool)

/-! ## Runs that go as a meaning does -/

/-- The machine knows the built-in words and runs code at a cursor, in a world. -/
structure Machine.At (machine : Machine) (cursor : Cursor UInt8) (world : World) : Prop where
  code : machine.code = some cursor
  world : machine.world = world
  dictionary : machine.dictionary = .ofGroups Builtin.Group.all

/-- The machine in another world. -/
def Machine.inWorld (machine : Machine) (world : World) : Machine :=
  { machine with stack := world.stack, robot := world.robot, output := world.output }

/-- The rest of the run goes on from the cursor in the world that the meaning leads to, or it stops
as the meaning does. -/
def Carries (call : String → Exec Unit) (machine : Machine)
    (meaning : EStateM.Result Stop World Unit) (cursor : Cursor UInt8) : Prop :=
  match meaning with
  | .ok _ world =>
    ∃ machine', machine'.At cursor world ∧ runRest call machine = runRest call machine'
  | .error stop world =>
    ∃ machine', machine'.world = world ∧ runRest call machine = .error stop machine'

section Carries

variable {call : String → Exec Unit} {depth : Nat} {machine machine' : Machine}
  {cursor cursor' reached : Cursor UInt8} {world : World} {target : UInt16}
  {meaning : EStateM.Result Stop World Unit}

private theorem Machine.At.carries (h : machine.At cursor world) :
    Carries call machine (.ok () world) cursor :=
  ⟨machine, h, rfl⟩

private theorem Carries.of_eq (h : runRest call machine = runRest call machine')
    (hcarries : Carries call machine' meaning cursor) : Carries call machine meaning cursor := by
  cases meaning with
  | ok u world =>
    obtain ⟨last, hat, hrun⟩ := hcarries
    exact ⟨last, hat, h.trans hrun⟩
  | error stop world =>
    obtain ⟨last, hworld, hrun⟩ := hcarries
    exact ⟨last, hworld, h.trans hrun⟩

theorem Carries.bind {x : Eval Unit} {f : Unit → Eval Unit}
    (hx : Carries call machine (x world) cursor)
    (hf : ∀ {machine' world'}, machine'.At cursor world' →
      Carries call machine' (f () world') cursor') :
    Carries call machine ((x >>= f) world) cursor' := by
  cases h : x world with
  | ok u world' =>
    rw [h] at hx
    obtain ⟨machine', hat, hrun⟩ := hx
    rw [bind_eq_of_ok h]
    exact .of_eq hrun (hf hat)
  | error stop world' =>
    rw [h] at hx
    rw [bind_eq_of_error h]
    exact hx

/-- A run may go on behind the end of a meaning as long as nothing happens there. -/
theorem Carries.andThen (h : Carries call machine meaning cursor)
    (hnext : ∀ {machine' world'}, machine'.At cursor world' →
      Carries call machine' (.ok () world') cursor') :
    Carries call machine meaning cursor' := by
  cases meaning with
  | ok u world' =>
    obtain ⟨machine', hat, hrun⟩ := h
    exact .of_eq hrun (hnext hat)
  | error stop world' => exact h

private theorem carries_of_step (hcode : machine.code = some cursor) (hmore : cursor.hasNext = true)
    (hstep : runStep (invoke (depth + 1)) machine = .ok () machine')
    (hat : machine'.At cursor' world) :
    Carries (invoke (depth + 1)) machine (.ok () world) cursor' :=
  .of_eq (runRest_of_step (invoke_keeps _) hcode hmore hstep) hat.carries

private theorem carries_of_stop {stop : Stop} (hcode : machine.code = some cursor)
    (hmore : cursor.hasNext = true)
    (hstep : runStep (invoke (depth + 1)) machine = .error stop machine')
    (hworld : machine'.world = world) :
    Carries (invoke (depth + 1)) machine (.error stop world) cursor' :=
  ⟨machine', hworld, runRest_of_stop (invoke_keeps _) hcode hmore hstep⟩

/-! ## Instructions -/

private theorem carries_push {literal : Literal} (hat : machine.At cursor world)
    (hencodable : literal.Encodable)
    (hpast : cursor.Past (Instruction.push literal).encode cursor') :
    Carries (invoke (depth + 1)) machine (Eval.push literal.value world) cursor' := by
  refine carries_of_step hat.code (hpast.hasNext (encode_ne_nil _))
    (runStep_push hat.code hencodable hpast) ⟨rfl, ?_, hat.dictionary⟩
  rw [← hat.world]
  rfl

private theorem carries_word {name : String} (hat : machine.At cursor world)
    (hencodable : (Instruction.exec name).Encodable)
    (hpast : cursor.Past (Instruction.exec name).encode cursor') :
    Carries (invoke (depth + 1)) machine (Eval.word name cursor'.position world) cursor' := by
  obtain ⟨hname, hbranch, hjump⟩ := hencodable
  have hmore := hpast.hasNext (encode_ne_nil _)
  have hfind : machine.dictionary.find? name = (Builtin.ofName? name).map Builtin.word := by
    rw [hat.dictionary, Dictionary.find?_all]
  unfold Eval.word
  cases hword : Builtin.ofName? name with
  | none =>
    rw [hword] at hfind
    exact carries_of_stop hat.code hmore (runStep_unknown hat.code hname hpast hfind) hat.world
  | some b =>
    rw [hword] at hfind
    -- The two words that steer the run are followed by a target, so they are not called like this.
    have hsteers : ¬ b.Steers := by
      rintro (rfl | rfl)
      · exact hbranch (Builtin.ofName?_eq_some.1 hword)
      · exact hjump (Builtin.ofName?_eq_some.1 hword)
    have hstep := @runStep_builtin machine cursor cursor' depth name b hat.code hname hpast hfind
    -- The meaning runs the word on a machine without code, which agrees but for the error.
    have htwins : (machine.inWord name cursor cursor').Twins name cursor'.position world.machine :=
      ⟨hat.world, hat.dictionary, rfl, rfl⟩
    dsimp only
    cases hrun : b.run (machine.inWord name cursor cursor') with
    | ok u after =>
      obtain ⟨plain, hplain, htwins'⟩ := (Builtin.run_agrees hsteers).ok htwins hrun
      have hstays := (Builtin.run_stays hsteers).ok hrun
      rw [hrun] at hstep
      rw [hplain]
      exact carries_of_step hat.code hmore hstep
        ⟨hstays.code, htwins'.world, hstays.dictionary.trans hat.dictionary⟩
    | error stop after =>
      obtain ⟨stop', plain, hplain, rfl, htwins'⟩ := (Builtin.run_agrees hsteers).error htwins hrun
      rw [hrun] at hstep
      rw [hplain]
      exact carries_of_stop hat.code hmore hstep htwins'.world

/-- Taking a flag off the stack of a machine is taking it off that of its world. -/
theorem popBool_eq (machine : Machine) :
    popBool machine =
      match Eval.popFlag machine.world with
      | .ok flag world => .ok flag (machine.inWorld world)
      | .error stop world => .error stop (machine.inWorld world) := by
  cases hpop : machine.stack.pop? with
  | none =>
    have hunderflow : Exec.pop machine = .error (.failed (.runtime .stackUnderflow)) machine := by
      simp only [Exec.pop, hpop]
    refine (bind_eq_of_error hunderflow).trans ?_
    simp only [Eval.popFlag, Machine.world, hpop]
    rfl
  | some top =>
    obtain ⟨value, stack⟩ := top
    have hvalue : Exec.pop machine = .ok value { machine with stack } := by
      simp only [Exec.pop, hpop]
    refine (bind_eq_of_ok hvalue).trans ?_
    cases value <;> simp only [Eval.popFlag, Machine.world, hpop] <;> rfl

private theorem carries_branch {next : Cursor UInt8} {f : Bool → Eval Unit}
    (hat : machine.At cursor world)
    (hpast : cursor.Past (Instruction.branch target).encode next)
    (hahead : next.Ahead reached) (htarget : target.toNat = reached.position)
    (hyes : ∀ {machine' world'}, machine'.At next world' →
      Carries (invoke (depth + 1)) machine' (f true world') cursor')
    (hno : ∀ {machine' world'}, machine'.At reached world' →
      Carries (invoke (depth + 1)) machine' (f false world') cursor') :
    Carries (invoke (depth + 1)) machine ((Eval.popFlag >>= f) world) cursor' := by
  have hmore := hpast.hasNext (encode_ne_nil _)
  have hfind : machine.dictionary.find? branchName = some Builtin.branch.word := by
    rw [hat.dictionary, Dictionary.find?_all]
    rfl
  have hstep := @runStep_branch machine cursor next depth target hat.code hpast hfind
  -- The flag is taken off the stack when the target has already been read.
  have hpop := popBool_eq (machine.inWord branchName cursor next)
  have hworld : (machine.inWord branchName cursor next).world = world := hat.world
  rw [hworld] at hpop
  cases hflag : Eval.popFlag world with
  | error stop world' =>
    rw [hflag] at hpop
    rw [bind_eq_of_error hpop] at hstep
    rw [bind_eq_of_error hflag]
    exact carries_of_stop hat.code hmore hstep rfl
  | ok flag world' =>
    rw [hflag] at hpop
    rw [bind_eq_of_ok hpop] at hstep
    rw [bind_eq_of_ok hflag]
    cases flag with
    | true =>
      refine .of_eq (runRest_of_step (invoke_keeps _) hat.code hmore hstep) ?_
      exact hyes ⟨rfl, rfl, hat.dictionary⟩
    | false =>
      have hjump := @jumpTo_of_ahead ((machine.inWord branchName cursor next).inWorld world') _ _
        rfl hahead
      rw [← htarget] at hjump
      have hlast := hstep.trans (congrArg (restoreWord machine.word) hjump)
      refine .of_eq (runRest_of_step (invoke_keeps _) hat.code hmore hlast) ?_
      exact hno ⟨rfl, rfl, hat.dictionary⟩

private theorem carries_jump {next : Cursor UInt8} (hat : machine.At cursor world)
    (hpast : cursor.Past (Instruction.jump target).encode next)
    (hahead : next.Ahead reached) (htarget : target.toNat = reached.position) :
    Carries (invoke (depth + 1)) machine (.ok () world) reached := by
  have hfind : machine.dictionary.find? jumpName = some Builtin.jump.word := by
    rw [hat.dictionary, Dictionary.find?_all]
    rfl
  have hstep := @runStep_jump machine cursor next depth target hat.code hpast hfind
  rw [htarget, jumpTo_of_ahead rfl hahead] at hstep
  exact carries_of_step hat.code (hpast.hasNext (encode_ne_nil _)) hstep
    ⟨rfl, hat.world, hat.dictionary⟩

end Carries

/-! ## Programs -/

mutual

/-- An item at its place in the code is carried out as it means. -/
theorem Item.carries {depth : Nat} : ∀ {item : Item} {machine : Machine} {world : World}
    {cursor cursor' : Cursor UInt8}, item.Sound cursor.position →
    cursor.Past (encodeAll (item.layout cursor.position)) cursor' → machine.At cursor world →
    Carries (invoke (depth + 1)) machine (item.eval cursor.position world) cursor'
  | .leaf (.literal literal), machine, world, cursor, cursor', hsound, hpast, hat => by
    rw [Item.Sound] at hsound
    rw [Item.layout, encodeAll_cons, encodeAll_nil, List.append_nil] at hpast
    rw [Item.eval]
    exact carries_push hat hsound hpast
  | .leaf (.word name), machine, world, cursor, cursor', hsound, hpast, hat => by
    rw [Item.Sound] at hsound
    rw [Item.layout, encodeAll_cons, encodeAll_nil, List.append_nil] at hpast
    have hposition := hpast.position
    rw [length_encode] at hposition
    rw [Item.eval]
    exact hposition ▸ carries_word hat hsound hpast
  | .ifThen body, machine, world, cursor, cursor', hsound, hpast, hat => by
    rw [Item.layout, encodeAll_cons] at hpast
    obtain ⟨next, hbranch, hbody⟩ := Cursor.past_append.1 hpast
    have hnext : next.position = cursor.position + branchSize := hbranch.position
    rw [Item.Sound, ← hnext] at hsound
    rw [← hnext] at hbranch hbody
    rw [Item.eval, ← hnext]
    refine carries_branch hat hbranch hbody.ahead ?_ (fun hat' => ?_) (fun hat' => ?_)
    · rw [toNat_target hsound.2, hbody.position, Program.length_layout]
    · exact Program.carries hsound.1 hbody hat'
    · exact hat'.carries
  | .ifElse yes no, machine, world, cursor, cursor', hsound, hpast, hat => by
    rw [Item.layout, encodeAll_cons, encodeAll_append, encodeAll_cons] at hpast
    -- The cursors at the first body, at the jump behind it, and at the second body.
    obtain ⟨next, hbranch, hpast⟩ := Cursor.past_append.1 hpast
    obtain ⟨last, hyes, hpast⟩ := Cursor.past_append.1 hpast
    obtain ⟨other, hjump, hno⟩ := Cursor.past_append.1 hpast
    have hnext : next.position = cursor.position + branchSize := hbranch.position
    have hother : other.position = next.position + Program.size yes + jumpSize := by
      rw [hjump.position, hyes.position, Program.length_layout]
      rfl
    rw [hnext] at hother
    rw [Item.Sound, ← hother, ← hnext] at hsound
    rw [← hother] at hbranch hjump hno
    rw [← hnext] at hyes
    obtain ⟨hsoundYes, hmiddle, hsoundNo, hend⟩ := hsound
    rw [Item.eval, ← hother, ← hnext]
    -- The first body ends at the jump, which leads past the second one.
    have hlast : ∀ {machine' : Machine} {world' : World}, machine'.At last world' →
        Carries (invoke (depth + 1)) machine' (.ok () world') cursor' := fun hat' =>
      carries_jump hat' hjump hno.ahead (by
        rw [toNat_target hend, hno.position, Program.length_layout])
    refine carries_branch hat hbranch ?_ (toNat_target hmiddle) (fun hat' => ?_) (fun hat' => ?_)
    · exact trans_of Cursor.Ahead hyes.ahead hjump.ahead
    · exact (Program.carries hsoundYes hyes hat').andThen hlast
    · exact Program.carries hsoundNo hno hat'

/-- The same for programs. -/
theorem Program.carries {depth : Nat} : ∀ {items : List Item} {machine : Machine} {world : World}
    {cursor cursor' : Cursor UInt8}, Program.Sound cursor.position items →
    cursor.Past (encodeAll (Program.layout cursor.position items)) cursor' →
    machine.At cursor world →
    Carries (invoke (depth + 1)) machine (Program.eval cursor.position items world) cursor'
  | [], machine, world, cursor, cursor', hsound, hpast, hat => by
    rw [Program.layout, encodeAll_nil, Cursor.past_nil] at hpast
    rw [Program.eval, hpast]
    exact hat.carries
  | item :: items, machine, world, cursor, cursor', hsound, hpast, hat => by
    rw [Program.Sound] at hsound
    rw [Program.layout, encodeAll_append] at hpast
    obtain ⟨next, hitem, hitems⟩ := Cursor.past_append.1 hpast
    have hnext : next.position = cursor.position + item.size := by
      rw [hitem.position, Item.length_layout]
    rw [← hnext] at hsound hitems
    rw [Program.eval, ← hnext]
    exact .bind (Item.carries hsound.1 hitem hat) fun hat' => Program.carries hsound.2 hitems hat'

end

/-- A run of the code of a program ends as the program means. -/
theorem viewState_runCode {depth : Nat} {program : Program} {machine : Machine}
    (hsound : Program.Sound 0 program)
    (hdictionary : machine.dictionary = .ofGroups Builtin.Group.all) :
    viewState Machine.world (Exec.runCode (invoke (depth + 1)) program.code machine) =
      Program.eval 0 program machine.world := by
  have hcode : program.code = encodeAll (Program.layout 0 program) := by
    rw [Program.code, Program.instructions_eq_layout]
  have hrest : (Cursor.start program.code).rest = encodeAll (Program.layout 0 program) ++ [] := by
    rw [List.append_nil, ← hcode]
    rfl
  -- The code of the program is all there is, so the cursor behind it is at the end.
  obtain ⟨last, hpast, hnil⟩ := Cursor.exists_past hrest
  have hat : (machine.enter program.code).At (.start program.code) machine.world :=
    ⟨rfl, rfl, hdictionary⟩
  have hcarries := @Program.carries depth program _ _ (.start program.code) _ hsound hpast hat
  rw [runCode_eq_runRest]
  have hstart : (Cursor.start program.code).position = 0 := rfl
  rw [hstart] at hcarries
  cases hmeaning : Program.eval 0 program machine.world with
  | ok u world =>
    rw [hmeaning] at hcarries
    obtain ⟨after, hafter, hrun⟩ := hcarries
    rw [hrun, runRest_of_end hafter.code (Cursor.rest_eq_nil_iff.1 hnil)]
    exact congrArg _ hafter.world
  | error stop world =>
    rw [hmeaning] at hcarries
    obtain ⟨after, hworld, hrun⟩ := hcarries
    rw [hrun]
    cases stop with
    | failed e => exact congrArg _ hworld
    | outOfFuel => exact congrArg _ hworld

/-! ## Words that give up -/

/-- If a word gives up, then it is one of the instructions, and the position is that of its end. -/
def Stop.BlamesOneOf (offset : Nat) (instructions : List Instruction) : Stop → Prop
  | .failed (.runtime (.wordFailed word position _)) =>
    ∃ front back, instructions = front ++ .exec word :: back ∧
      position = offset + (encodeAll front ++ encodeCall word).length
  | _ => True

private theorem Stop.blame_blamesOneOf (name : String) (offset : Nat) (stop : Stop) :
    (stop.blame name (offset + (Instruction.exec name).size)).BlamesOneOf offset [.exec name] := by
  unfold Stop.blame
  split
  · refine ⟨[], [], rfl, ?_⟩
    rw [← length_encode]
    rfl
  · rename_i hstop
    unfold Stop.BlamesOneOf
    split
    · exact absurd rfl (hstop _ _ _)
    · trivial

/-- A step that blames one of the instructions if a word gives up. -/
abbrev Blaming {α : Type} (offset : Nat) (instructions : List Instruction) (x : Eval α) : Prop :=
  Ensures x (fun _ _ => True) (Stop.BlamesOneOf offset instructions)

instance : IsPreorder World fun _ _ => True where
  refl _ := trivial
  trans _ _ _ _ _ := trivial

section Blaming

variable {α : Type} {offset : Nat} {x : Eval α} {instructions : List Instruction}

theorem Blaming.append_left {front : List Instruction}
    (h : Blaming (offset + (encodeAll front).length) instructions x) :
    Blaming offset (front ++ instructions) x := by
  refine h.mono (fun _ _ _ => trivial) fun stop hblames => ?_
  unfold Stop.BlamesOneOf at hblames ⊢
  split
  · obtain ⟨front', back, rfl, rfl⟩ := hblames
    exact ⟨front ++ front', back, (List.append_assoc ..).symm, by simp [Nat.add_assoc]⟩
  · trivial

theorem Blaming.append_right (h : Blaming offset instructions x) (back : List Instruction) :
    Blaming offset (instructions ++ back) x := by
  refine h.mono (fun _ _ _ => trivial) fun stop hblames => ?_
  unfold Stop.BlamesOneOf at hblames ⊢
  split
  · obtain ⟨front, back', rfl, rfl⟩ := hblames
    exact ⟨front, back' ++ back, List.append_assoc .., rfl⟩
  · trivial

theorem Blaming.cons {instruction : Instruction}
    (h : Blaming (offset + instruction.size) instructions x) :
    Blaming offset (instruction :: instructions) x := by
  have hfront : Blaming offset ([instruction] ++ instructions) x := by
    refine Blaming.append_left ?_
    rwa [encodeAll_cons, encodeAll_nil, List.append_nil, length_encode]
  exact hfront

end Blaming

private theorem popFlag_blaming (offset : Nat) (instructions : List Instruction) :
    Blaming offset instructions Eval.popFlag := by
  intro world
  unfold Eval.popFlag
  cases world.stack.pop? with
  | none => exact ⟨trivial, trivial⟩
  | some top =>
    obtain ⟨value, stack⟩ := top
    cases value with
    | bool flag => exact trivial
    | int n | direction d | string s => exact ⟨trivial, trivial⟩

private theorem word_blaming (name : String) (offset : Nat) :
    Blaming offset [.exec name] (Eval.word name (offset + (Instruction.exec name).size)) := by
  intro world
  unfold Eval.word
  cases Builtin.ofName? name with
  | none => exact ⟨trivial, trivial⟩
  | some b =>
    dsimp only
    cases b.run world.machine with
    | ok u after => exact trivial
    | error stop after => exact ⟨trivial, stop.blame_blamesOneOf name offset⟩

mutual

private theorem Item.eval_blaming : ∀ (item : Item) (offset : Nat),
    Blaming offset (item.layout offset) (item.eval offset)
  | .leaf (.literal literal), offset => by
    rw [Item.eval]
    exact .modify fun _ => trivial
  | .leaf (.word name), offset => by
    rw [Item.eval, Item.layout]
    exact word_blaming name offset
  | .ifThen body, offset => by
    rw [Item.eval, Item.layout]
    refine .bind (popFlag_blaming _ _) fun flag => .ite ?_ (.pure _)
    exact Blaming.cons (Program.eval_blaming body _)
  | .ifElse yes no, offset => by
    rw [Item.eval, Item.layout]
    refine .bind (popFlag_blaming _ _) fun flag => .ite ?_ ?_
    · exact Blaming.cons (Blaming.append_right (Program.eval_blaming yes _) _)
    · refine Blaming.cons (Blaming.append_left ?_)
      rw [Program.length_layout]
      exact Blaming.cons (Program.eval_blaming no _)

private theorem Program.eval_blaming : ∀ (items : List Item) (offset : Nat),
    Blaming offset (Program.layout offset items) (Program.eval offset items)
  | [], offset => by
    rw [Program.eval]
    exact .pure _
  | item :: items, offset => by
    rw [Program.eval, Program.layout]
    refine .bind ?_ fun _ => ?_
    · exact Blaming.append_right (Item.eval_blaming item offset) _
    · refine Blaming.append_left ?_
      rw [Item.length_layout]
      exact Program.eval_blaming items _

end

/-- Compiled code does what its tokens mean. They spell one program, and a run of the code leads to
the same outcome as the meaning of that program and to the same stack, robot and output. If a word
gives up, then the position is that of the byte behind the terminator of its name in the code. -/
theorem compile_correct {tokens : List Token} {code : Code} (h : compile tokens = .ok code) :
    ∃ program, (∀ other, Spells tokens other ↔ other = program) ∧
      ∀ depth (machine : Machine), machine.dictionary = .ofGroups Builtin.Group.all →
        viewState Machine.world (Exec.runCode (invoke (depth + 1)) code machine) =
          Program.eval 0 program machine.world ∧
        ∀ word position fault after,
          Exec.runCode (invoke (depth + 1)) code machine =
            .error (.failed (.runtime (.wordFailed word position fault))) after →
          ∃ front back, code = encodeAll front ++ encodeCall word ++ encodeAll back ∧
            position = (encodeAll front ++ encodeCall word).length := by
  obtain ⟨program, hprogram, rfl⟩ := compile_eq_ok.1 h
  obtain ⟨hspells, hreach⟩ := Program.ofTokens_eq_ok.1 hprogram
  refine ⟨program, fun other => ?_, fun depth machine hdictionary => ?_⟩
  · constructor
    · intro hother
      have hsame := (Program.ofTokens_eq_ok.2 ⟨hother, hreach⟩).symm.trans hprogram
      exact Except.ok.inj hsame
    · rintro rfl
      exact hspells
  · have hrun := @viewState_runCode depth program machine (hspells.sound hreach) hdictionary
    refine ⟨hrun, fun word position fault after hfailed => ?_⟩
    rw [hfailed] at hrun
    have hblames := ((Program.eval_blaming program 0).error hrun.symm).2
    obtain ⟨front, back, hlayout, rfl⟩ := hblames
    refine ⟨front, back, ?_, Nat.zero_add _⟩
    rw [Program.code, Program.instructions_eq_layout, hlayout, encodeAll_append, encodeAll_cons,
      List.append_assoc]
    rfl

/-- Division by zero in the first body of a conditional. -/
theorem compile_correct_division :
    let tokens : List Token := [.ofBool true .unspecified, .ofWord "IF" .unspecified,
      .ofNumber 1 .unspecified, .ofNumber 0 .unspecified, .ofWord "/" .unspecified,
      .ofWord "ELSE" .unspecified, .ofNumber 2 .unspecified, .ofWord "THEN" .unspecified]
    let machine := Machine.start (.ofGroups Builtin.Group.all) .standard (.empty [])
    ∃ code program, compile tokens = .ok code ∧ Spells tokens program ∧
      viewState Machine.world (Exec.runCode (invoke 1) code machine) =
        Program.eval 0 program machine.world := by
  intro tokens machine
  obtain ⟨code, hcompile⟩ : ∃ code, compile tokens = .ok code := ⟨[0, 2, 1, 1, 73, 70, 0, 0, 25,
    0, 0, 1, 0, 0, 0, 1, 47, 0, 1, 74, 77, 80, 0, 0, 28, 0, 0, 2], rfl⟩
  obtain ⟨program, hspells, hrun⟩ := compile_correct hcompile
  exact ⟨code, program, hcompile, (hspells program).2 rfl, (hrun 0 machine rfl).1⟩

end Tabletop
