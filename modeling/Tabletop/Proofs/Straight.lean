import Tabletop.Instruction.Listing
import Tabletop.Proofs.RoundTrip
import Tabletop.Proofs.Termination

/-!
# Runs without jumps carry out what is listed

Decoding reads the target of an instruction together with its head. A run leaves the target to the
word, which reads it before it does anything else. So as long as no word jumps, both go through the
code in the same steps (`runStep_follows`), and both come to the end of the code, or to what cannot
be read, at the same place (`runRest_follows`). What a run carries out is told by its journal.
-/

namespace Tabletop

open Exec Instruction

/-! ## What a journal tells -/

/-- The entry that a machine makes when it has read the head of an instruction at an offset. -/
def Instruction.Head.entry (offset : Nat) : Head → Event
  | .push literal => .pushed offset literal.value
  | .exec name => .called offset name

/-- The entry for an instruction with its offset. -/
def Instruction.entry (listed : Nat × Instruction) : Event := listed.2.head.entry listed.1

/-- Does the entry tell of an instruction? -/
def Event.isInstruction : Event → Bool
  | pushed _ _ => true
  | called _ _ => true
  | _ => false

/-- The entries that tell of instructions, oldest first. -/
def Journal.instructions (journal : Journal) : List Event :=
  (journal.filter Event.isInstruction).reverse

private theorem Journal.instructions_append (new old : Journal) :
    Journal.instructions (new ++ old) = Journal.instructions old ++ Journal.instructions new := by
  simp [Journal.instructions]

private theorem Journal.instructions_entry (head : Head) (offset : Nat) :
    Journal.instructions [head.entry offset] = [head.entry offset] := by
  cases head <;> rfl

/-- No entry tells of a jump. -/
def Journal.Straight (journal : Journal) : Prop := ∀ target, Event.jumped target ∉ journal

private theorem Journal.straight_append {new old : Journal} :
    Journal.Straight (new ++ old) ↔ Journal.Straight new ∧ Journal.Straight old := by
  simp only [Straight, List.mem_append, not_or, forall_and]

/-! ## What words write into the journal -/

/-- Does the entry tell that the robot did not do as it was told? -/
def Event.isRemark : Event → Bool
  | refused _ => true
  | unreported => true
  | _ => false

/-- The journal has grown by remarks only. -/
def Machine.Remarks (before after : Machine) : Prop :=
  ∃ entries, after.journal = entries ++ before.journal ∧ ∀ event ∈ entries, event.isRemark = true

instance : IsPreorder Machine Machine.Remarks where
  refl _ := ⟨[], rfl, by simp⟩
  trans := by
    rintro _ _ _ ⟨first, hfirst, hremarks⟩ ⟨second, hsecond, hremarks'⟩
    refine ⟨second ++ first, by rw [hsecond, hfirst, List.append_assoc], ?_⟩
    intro event hevent
    rcases List.mem_append.1 hevent with h | h
    · exact hremarks' event h
    · exact hremarks event h

private theorem Machine.remarks_of_eq {before after : Machine}
    (h : after.journal = before.journal) :
    before.Remarks after :=
  ⟨[], h, by simp⟩

/-- A step that writes remarks only. -/
abbrev Quiet {α : Type} (x : Exec α) : Prop := Ensures x Machine.Remarks fun _ => True

private theorem pop_quiet : Quiet pop := by
  intro machine
  unfold pop
  cases machine.stack.pop? with
  | none => exact ⟨refl_of Machine.Remarks machine, trivial⟩
  | some top => exact Machine.remarks_of_eq rfl

private theorem fail_quiet {α : Type} (fault : Fault) : Quiet (fail fault : Exec α) :=
  .bind .get fun _ => .bind (.bind .get fun _ => .pure _) fun _ => .throw trivial

private theorem print_quiet (text : String) : Quiet (Exec.print text) := by
  intro machine
  unfold Exec.print
  dsimp only
  cases Limit.blocked? (Text.utf8 text) machine.output.limits with
  | none => exact Machine.remarks_of_eq rfl
  | some message => exact ⟨Machine.remarks_of_eq rfl, trivial⟩

private theorem order_quiet (o : Order) : Quiet (order o) := by
  intro machine
  refine ⟨(machine.robot.follow o).2.2, rfl, ?_⟩
  unfold Robot.follow
  cases machine.robot.obey o with
  | ok robot => simp
  | error refusal => simp [Event.isRemark]

private theorem quiet_steps : HoldsOfSteps fun _ x => Quiet x where
  pure := .pure
  bind := .bind
  byState _ h := .bind .get h
  byStack _ h := .bind .get h
  pop := pop_quiet
  push _ := .modify fun _ => Machine.remarks_of_eq rfl
  mismatch _ _ := .throw trivial
  fail := fail_quiet
  print := print_quiet
  unreported := .modify fun _ => ⟨[.unreported], rfl, by simp [Event.isRemark]⟩
  order := order_quiet

private theorem instructions_of_remarks {entries : Journal}
    (h : ∀ event ∈ entries, event.isRemark = true) : Journal.instructions entries = [] := by
  rw [Journal.instructions, List.reverse_eq_nil_iff, List.filter_eq_nil_iff]
  intro event hevent
  have hremark := h event hevent
  cases event <;> simp_all [Event.isRemark, Event.isInstruction]

private theorem journal_restoreWord (word : Option String)
    (result : EStateM.Result Stop Machine Unit) :
    (endState (restoreWord word result)).journal = (endState result).journal := by
  rw [endState_restoreWord]

/-- A jump is written down first, whether or not it leads anywhere. -/
theorem journal_jumpTo (target : Nat) (machine : Machine) :
    (endState (jumpTo target machine)).journal = .jumped target :: machine.journal := by
  have hjump : jumpTo target machine = readCode (Cursor.advanceTo target)
      { machine with journal := .jumped target :: machine.journal } := rfl
  rw [hjump]
  unfold readCode
  cases machine.code with
  | none => rfl
  | some cursor =>
    dsimp only
    cases Cursor.advanceTo target cursor <;> rfl

theorem Stop.OfProgram.runtime {stop : Stop} (h : stop.OfProgram) :
    ∃ e, stop = .failed (.runtime e) := by
  cases stop with
  | outOfFuel => exact h.elim
  | failed e =>
    cases e with
    | runtime e => exact ⟨e, rfl⟩
    | scan _ | compile _ | decode _ | config _ => exact h.elim

/-! ## One instruction -/

/-- The entry for the instruction in front of a cursor, if its head can be read. -/
def begun (cursor : Cursor UInt8) : List Event :=
  match readHead cursor with
  | .ok head _ => [head.entry cursor.position]
  | .error _ _ => []

theorem begun_of_ok {cursor cursor' : Cursor UInt8} {head : Head}
    (h : readHead cursor = .ok head cursor') : begun cursor = [head.entry cursor.position] := by
  simp only [begun, h]

private theorem begun_of_error {cursor cursor' : Cursor UInt8} {e : DecodeError}
    (h : readHead cursor = .error e cursor') : begun cursor = [] := by
  simp only [begun, h]

/-- What one step of a run makes of the instruction in front of a cursor, with these entries: it
carries it out and goes on behind it, it is stopped by what the instruction does, it cannot read it,
or it jumps. -/
inductive StepFollows (cursor : Cursor UInt8) (entries : Journal) :
    EStateM.Result Stop Machine Unit → Prop
  | goesOn {instruction : Instruction} {cursor' : Cursor UInt8} {after : Machine} :
    read cursor = .ok instruction cursor' → after.code = some cursor' →
    Journal.instructions entries = [instruction.head.entry cursor.position] →
    StepFollows cursor entries (.ok () after)
  | stops {instruction : Instruction} {cursor' : Cursor UInt8} {e : RuntimeError}
      {after : Machine} :
    read cursor = .ok instruction cursor' →
    Journal.instructions entries = [instruction.head.entry cursor.position] →
    StepFollows cursor entries (.error (.failed (.runtime e)) after)
  | unreadable {e : DecodeError} {cursor' : Cursor UInt8} {after : Machine} :
    read cursor = .error e cursor' → Journal.instructions entries = begun cursor →
    StepFollows cursor entries (.error (.failed (.decode e)) after)
  | jumps {target : Nat} {result : EStateM.Result Stop Machine Unit} :
    .jumped target ∈ entries → StepFollows cursor entries result

/-- The result has grown the journal by entries that tell what it made of the instruction in front
of a cursor. -/
def Follows (cursor : Cursor UInt8) (machine : Machine)
    (result : EStateM.Result Stop Machine Unit) : Prop :=
  ∃ entries, (endState result).journal = entries ++ machine.journal ∧
    StepFollows cursor entries result

section Step

variable {machine before : Machine} {depth target : Nat} {name : String} {b : Builtin}
  {cursor cursor' : Cursor UInt8} {instruction : Instruction} {x : Exec Unit}

/-- A step that leaves the context alone and writes remarks only carries out the instruction for
which the machine has just made its entry. -/
theorem follows_of_steady (hsteady : Steady x) (hquiet : Quiet x)
    (hread : read cursor = .ok instruction cursor')
    (hjournal : before.journal = instruction.head.entry cursor.position :: machine.journal)
    (hcode : before.code = some cursor') :
    Follows cursor machine (restoreWord machine.word (x before)) := by
  obtain ⟨remarks, hend, hremarks⟩ := hquiet.atEnd before
  have hinstructions :
      Journal.instructions (remarks ++ [instruction.head.entry cursor.position]) =
        [instruction.head.entry cursor.position] := by
    rw [Journal.instructions_append, Journal.instructions_entry, instructions_of_remarks hremarks,
      List.append_nil]
  refine ⟨remarks ++ [instruction.head.entry cursor.position], ?_, ?_⟩
  · rw [journal_restoreWord, hend, hjournal, List.append_assoc, List.singleton_append]
  · cases hx : x before with
    | ok u after => exact .goesOn hread ((hsteady.ok hx).code.trans hcode) hinstructions
    | error stop after =>
      obtain ⟨e, rfl⟩ := (hsteady.error hx).2.runtime
      exact .stops hread hinstructions

/-- A jump is told by the journal, whatever was written before it. -/
theorem follows_of_jump {entries : Journal}
    (hjournal : before.journal = entries ++ machine.journal) :
    Follows cursor machine (restoreWord machine.word (jumpTo target before)) := by
  refine ⟨.jumped target :: entries, ?_, .jumps List.mem_cons_self⟩
  rw [journal_restoreWord, journal_jumpTo, hjournal, List.cons_append]

/-- A branch jumps if the flag is false. Otherwise it does no more than take the flag. -/
theorem branch_follows (hread : read cursor = .ok instruction cursor')
    (hjournal : before.journal = instruction.head.entry cursor.position :: machine.journal)
    (hcode : before.code = some cursor') :
    Follows cursor machine (restoreWord machine.word
      ((popBool >>= fun flag => if !flag then jumpTo target else pure ()) before)) := by
  have htake : Follows cursor machine
      (restoreWord machine.word ((popBool >>= fun _ => pure ()) before)) :=
    follows_of_steady (.bind popBool_stays fun _ => .pure _)
      (.bind quiet_steps.popBool fun _ => .pure _) hread hjournal hcode
  cases hpop : popBool before with
  | error stop after =>
    rw [bind_eq_of_error hpop] at htake ⊢
    exact htake
  | ok flag after =>
    rw [bind_eq_of_ok hpop] at htake ⊢
    cases flag with
    | true => exact htake
    | false =>
      obtain ⟨remarks, hend, _⟩ := quiet_steps.popBool.ok hpop
      rw [hjournal, ← List.singleton_append, ← List.append_assoc] at hend
      exact follows_of_jump hend

private theorem readTarget_of_error {e : DecodeError} (h : machine.code = some cursor)
    (hread : Instruction.readTarget cursor = .error e cursor') :
    Exec.readTarget machine = .error (.failed (.decode e)) { machine with code := some cursor' } :=
  bind_eq_of_error (readCode_of_error h hread)

/-- A word that cannot read its target fails as decoding does. -/
theorem follows_of_unreadable {e : DecodeError} {f : Nat → Exec Unit} {last : Cursor UInt8}
    (hhead : readHead cursor = .ok (.exec name) cursor')
    (hread : read cursor = .error e last)
    (htarget : Instruction.readTarget cursor' = .error e last) :
    Follows cursor machine (restoreWord machine.word
      ((Exec.readTarget >>= f) (machine.inWord name cursor cursor'))) := by
  rw [bind_eq_of_error
    (@readTarget_of_error (machine.inWord name cursor cursor') _ _ _ rfl htarget)]
  refine ⟨[.called cursor.position name], rfl, .unreadable hread ?_⟩
  rw [begun_of_ok hhead]
  rfl

/-- A word that steers the run reads its target where decoding does. -/
theorem steering_follows {make : UInt16 → Instruction} {f : Nat → Exec Unit}
    (hhead : readHead cursor = .ok (.exec name) cursor')
    (hread : read cursor = (Instruction.readTarget >>= fun target => pure (make target)) cursor')
    (hfollows : ∀ target last, read cursor = .ok (make target) last →
      Follows cursor machine (restoreWord machine.word
        (f target.toNat (machine.inWord name cursor last)))) :
    Follows cursor machine (restoreWord machine.word
      ((Exec.readTarget >>= f) (machine.inWord name cursor cursor'))) := by
  cases htarget : Instruction.readTarget cursor' with
  | error e last =>
    exact follows_of_unreadable hhead (hread.trans (bind_eq_of_error htarget)) htarget
  | ok target last =>
    have hpast := readTarget_eq_ok.1 htarget
    rw [bind_eq_of_ok (@readTarget_of_past (machine.inWord name cursor cursor') _ _ _ rfl hpast)]
    exact hfollows target last (hread.trans (bind_eq_of_ok htarget))

/-- The word of an instruction makes of it what decoding makes of it, unless it jumps. -/
theorem call_follows (hwords : machine.dictionary = .ofGroups Builtin.Group.all)
    (hhead : readHead cursor = .ok (.exec name) cursor') :
    Follows cursor machine (invoke (depth + 1) name (machine.calling name cursor cursor')) := by
  have hread : read cursor = _ := bind_eq_of_ok hhead
  have hfind : (machine.calling name cursor cursor').dictionary.find? name =
      (Builtin.ofName? name).map Builtin.word := by
    rw [← Dictionary.find?_all, ← hwords]
    rfl
  dsimp only at hread
  cases hb : Builtin.ofName? name with
  | none =>
    rw [hb] at hfind
    -- The two words that carry a target are known, so this name is neither of theirs.
    have hbranch : name ≠ branchName := by
      rintro rfl
      cases hb.symm.trans (Builtin.ofName?_name .branch)
    have hjump : name ≠ jumpName := by
      rintro rfl
      cases hb.symm.trans (Builtin.ofName?_name .jump)
    rw [if_neg hbranch, if_neg hjump] at hread
    rw [invoke_of_unknown hfind]
    exact ⟨[.called cursor.position name], rfl, .stops hread rfl⟩
  | some b =>
    rw [hb] at hfind
    rw [invoke_of_builtin hfind]
    obtain rfl := Builtin.ofName?_eq_some.1 hb
    by_cases hsteers : b.Steers
    · obtain rfl | rfl := hsteers
      · refine steering_follows hhead hread fun target last hread' => ?_
        exact branch_follows hread' rfl rfl
      · refine steering_follows hhead hread fun target last _ => ?_
        exact @follows_of_jump machine _ _ _ [.called cursor.position jumpName] rfl
    · have hbranch : b.name ≠ branchName :=
        fun h => hsteers (.inl (Builtin.name_injective (h : b.name = Builtin.branch.name)))
      have hjump : b.name ≠ jumpName :=
        fun h => hsteers (.inr (Builtin.name_injective (h : b.name = Builtin.jump.name)))
      rw [if_neg hbranch, if_neg hjump] at hread
      exact follows_of_steady (Builtin.run_stays hsteers)
        (Builtin.run_of_steps quiet_steps hsteers) hread rfl rfl

/-- One step of a run makes of an instruction what decoding makes of it, unless it jumps. -/
theorem runStep_follows (hcode : machine.code = some cursor)
    (hwords : machine.dictionary = .ofGroups Builtin.Group.all) :
    Follows cursor machine (runStep (invoke (depth + 1)) machine) := by
  cases hhead : readHead cursor with
  | error e cursor' =>
    rw [runStep_of_unreadable hcode hhead]
    exact ⟨[], rfl, .unreadable (bind_eq_of_error hhead) (begun_of_error hhead).symm⟩
  | ok head cursor' =>
    rw [runStep_of_read hcode hhead]
    cases head with
    | push literal =>
      have hread : read cursor = .ok (.push literal) cursor' := bind_eq_of_ok hhead
      exact ⟨[.pushed cursor.position literal.value], rfl, .goesOn hread rfl rfl⟩
    | exec name => exact call_follows hwords hhead

end Step

/-! ## Whole runs -/

/-- What a run from a cursor makes of the code, with these entries: it carries out the instructions
that decoding goes through, each at its offset. It comes to the end of the code, it is stopped by
what its last instruction does, or it comes to what cannot be read. -/
inductive RunFollows (cursor : Cursor UInt8) (entries : Journal) :
    EStateM.Result Stop Machine Unit → Prop
  | finished {listing : List (Nat × Instruction)} {last : Cursor UInt8} {after : Machine} :
    Decodes cursor listing last → last.hasNext = false →
    Journal.instructions entries = listing.map entry →
    RunFollows cursor entries (.ok () after)
  | stopped {listing : List (Nat × Instruction)} {last : Cursor UInt8} {e : RuntimeError}
      {after : Machine} :
    Decodes cursor listing last → Journal.instructions entries = listing.map entry →
    RunFollows cursor entries (.error (.failed (.runtime e)) after)
  | unreadable {listing : List (Nat × Instruction)} {last stuck : Cursor UInt8} {e : DecodeError}
      {after : Machine} :
    Decodes cursor listing last → last.hasNext = true → read last = .error e stuck →
    Journal.instructions entries = listing.map entry ++ begun last →
    RunFollows cursor entries (.error (.failed (.decode e)) after)

section Run

variable {machine : Machine} {depth : Nat} {cursor cursor' : Cursor UInt8} {first rest : Journal}
  {result : EStateM.Result Stop Machine Unit}

/-- A run that goes on behind an instruction goes through that one first. -/
theorem RunFollows.cons {instruction : Instruction} (h : RunFollows cursor' rest result)
    (hread : read cursor = .ok instruction cursor')
    (hfirst : Journal.instructions first = [instruction.head.entry cursor.position]) :
    RunFollows cursor (rest ++ first) result := by
  have happend : ∀ entries, Journal.instructions rest = entries →
      Journal.instructions (rest ++ first) = entry (cursor.position, instruction) :: entries := by
    rintro entries rfl
    rw [Journal.instructions_append, hfirst]
    rfl
  cases h with
  | finished hdecodes hend hentries =>
    exact .finished (.cons hread hdecodes) hend (happend _ hentries)
  | stopped hdecodes hentries => exact .stopped (.cons hread hdecodes) (happend _ hentries)
  | unreadable hdecodes hmore hstuck hentries =>
    exact .unreadable (.cons hread hdecodes) hmore hstuck (happend _ hentries)

/-- A step that is the last one of a run makes of the code what the run makes of it. -/
theorem StepFollows.last {stop : Stop} {after : Machine}
    (h : StepFollows cursor first (.error stop after)) (hmore : cursor.hasNext = true)
    (hstraight : Journal.Straight first) : RunFollows cursor first (.error stop after) := by
  cases h with
  | stops hread hentries => exact .stopped (.cons hread .nil) hentries
  | unreadable hread hentries => exact .unreadable .nil hmore hread hentries
  | jumps hjumped => exact absurd hjumped (hstraight _)

/-- The rest of a run without jumps carries out what decoding goes through. -/
theorem runRest_follows (hcode : machine.code = some cursor)
    (hwords : machine.dictionary = .ofGroups Builtin.Group.all) :
    ∃ entries, (endState (runRest (invoke (depth + 1)) machine)).journal =
        entries ++ machine.journal ∧
      (Journal.Straight entries →
        RunFollows cursor entries (runRest (invoke (depth + 1)) machine)) := by
  -- A run that jumps writes a journal too, so the induction is on the bytes that are left.
  have hcall := invoke_keeps (depth + 1)
  induction hleft : machine.remaining using Nat.strongRecOn generalizing machine cursor with
  | _ left ih =>
    cases hmore : cursor.hasNext with
    | false =>
      rw [runRest_of_end hcode hmore]
      exact ⟨[], rfl, fun _ => .finished .nil hmore rfl⟩
    | true =>
      obtain ⟨first, hfirst, hstep⟩ := @runStep_follows machine depth cursor hcode hwords
      have hknows := @runStep_knows _ machine depth cursor hcode hwords
      cases hrun : runStep (invoke (depth + 1)) machine with
      | error stop after =>
        rw [hrun] at hfirst hstep
        rw [runRest_of_stop hcall hcode hmore hrun]
        exact ⟨first, hfirst, hstep.last hmore⟩
      | ok _ after =>
        rw [hrun] at hfirst hstep hknows
        rw [runRest_of_step hcall hcode hmore hrun]
        have hlt := remaining_lt_of_runStep hcall hcode hrun
        obtain ⟨reached, hreached⟩ := exists_code_of_keeps hcode ((runStep_keeps hcall).ok hrun)
        obtain ⟨rest, hrest, hfollows⟩ := ih _ (hleft ▸ hlt) hreached hknows rfl
        refine ⟨rest ++ first, ?_, ?_⟩
        · rw [hrest]
          exact (congrArg (rest ++ ·) hfirst).trans (List.append_assoc ..).symm
        · intro hstraight
          obtain ⟨hstraightRest, hstraightFirst⟩ := Journal.straight_append.1 hstraight
          cases hstep with
          | goesOn hread hcode' hentries =>
            obtain rfl := Option.some.inj (hreached.symm.trans hcode')
            exact (hfollows hstraightRest).cons hread hentries
          | jumps hjumped => exact absurd hjumped (hstraightFirst _)

end Run

/-! ## Listings -/

theorem listing_of_ok {code : Code} {listing : List (Nat × Instruction)}
    (h : decode code = .ok listing) : ∃ text, Instruction.listing code = .ok text :=
  ⟨String.join (listing.map line), by rw [Instruction.listing, h]; rfl⟩

private theorem listing_of_error {code : Code} {e : DecodeError} (h : decode code = .error e) :
    Instruction.listing code = .error e := by
  rw [Instruction.listing, h]
  rfl

/-- The error because of which a run fails. -/
def failure? : EStateM.Result Stop Machine Unit → Option Error
  | .error (.failed e) _ => some e
  | _ => none

/-- The run succeeds exactly if the code can be listed, and fails to read it exactly if the listing
does, with the same error. -/
def EndsAsListed (code : Code) (result : EStateM.Result Stop Machine Unit) : Prop :=
  ((∃ after, result = .ok () after) ↔ ∃ text, Instruction.listing code = .ok text) ∧
  ∀ e, failure? result = some (.decode e) ↔ Instruction.listing code = .error e

private theorem RunFollows.endsAsListed {code : Code} {entries : Journal}
    {result : EStateM.Result Stop Machine Unit} (h : RunFollows (.start code) entries result)
    (hruntime : ∀ e, failure? result ≠ some (.runtime e)) : EndsAsListed code result := by
  cases h with
  | finished hdecodes hend _ =>
    obtain ⟨text, htext⟩ := listing_of_ok (hdecodes.decode_eq_ok hend)
    simp [EndsAsListed, failure?, htext]
  | stopped _ _ => exact absurd rfl (hruntime _)
  | unreadable hdecodes hmore hstuck _ =>
    have htext := listing_of_error (hdecodes.decode_eq_error hmore hstuck)
    simp [EndsAsListed, failure?, htext]

/-- What a run makes of the code does not depend on what else the journal tells. -/
theorem RunFollows.of_instructions {cursor : Cursor UInt8} {entries entries' : Journal}
    {result : EStateM.Result Stop Machine Unit} (h : RunFollows cursor entries result)
    (heq : Journal.instructions entries' = Journal.instructions entries) :
    RunFollows cursor entries' result := by
  cases h with
  | finished hdecodes hend hentries => exact .finished hdecodes hend (heq.trans hentries)
  | stopped hdecodes hentries => exact .stopped hdecodes (heq.trans hentries)
  | unreadable hdecodes hmore hstuck hentries =>
    exact .unreadable hdecodes hmore hstuck (heq.trans hentries)

theorem RunFollows.leave {cursor : Cursor UInt8} {entries : Journal}
    {result : EStateM.Result Stop Machine Unit} (h : RunFollows cursor entries result)
    (machine : Machine) : RunFollows cursor entries (machine.leave result) := by
  cases h with
  | finished hdecodes hend hentries => exact .finished hdecodes hend hentries
  | stopped hdecodes hentries => exact .stopped hdecodes hentries
  | unreadable hdecodes hmore hstuck hentries => exact .unreadable hdecodes hmore hstuck hentries

/-- The end of a run is written down too, but tells of no instruction. -/
theorem journal_leave (machine : Machine) (result : EStateM.Result Stop Machine Unit) :
    ∃ notes, (endState (machine.leave result)).journal = notes ++ (endState result).journal ∧
      Journal.instructions notes = [] := by
  cases result with
  | ok _ after => exact ⟨[.finished after.stack.peak], rfl, rfl⟩
  | error stop after =>
    cases stop with
    | failed e => exact ⟨[.stopped e], rfl, rfl⟩
    | outOfFuel => exact ⟨[], rfl, rfl⟩

/-- A run of any code, of which the journal tells no jump, carries out the instructions that
decoding goes through, in their order and at their offsets. Unless it is stopped by what its words
do, it succeeds exactly if the code can be listed, and otherwise fails with the same error. -/
theorem straight_run_follows (code : Code) (machine : Machine) (depth : Nat)
    (hwords : machine.dictionary = .ofGroups Builtin.Group.all) :
    let result := Exec.runCode (invoke (depth + 1)) code machine
    ∃ entries, (endState result).journal = entries ++ machine.journal ∧
      (Journal.Straight entries →
        RunFollows (.start code) entries result ∧
        ((∀ e, failure? result ≠ some (.runtime e)) → EndsAsListed code result)) := by
  intro result
  have hresult : result = machine.leave (runRest (invoke (depth + 1)) (machine.enter code)) := rfl
  obtain ⟨entries, hentries, hfollows⟩ :=
    @runRest_follows (machine.enter code) depth (.start code) rfl hwords
  obtain ⟨notes, hnotes, hquiet⟩ :=
    journal_leave machine (runRest (invoke (depth + 1)) (machine.enter code))
  refine ⟨notes ++ (entries ++ [.started code.length]), ?_, ?_⟩
  · rw [hresult, hnotes, hentries, List.append_assoc, List.append_assoc]
    rfl
  · intro hstraight
    have hloop := (Journal.straight_append.1 (Journal.straight_append.1 hstraight).2).1
    have hrun : RunFollows (.start code) (notes ++ (entries ++ [.started code.length])) result := by
      refine ((hfollows hloop).leave machine).of_instructions ?_
      rw [Journal.instructions_append, Journal.instructions_append, hquiet, List.append_nil]
      rfl
    exact ⟨hrun, hrun.endsAsListed⟩

/-- A branch that is not taken, although its target leads back, and then a tag that is unknown. -/
theorem straight_run_follows_unreadable :
    let code : Code := [0, 2, 1, 1, 73, 70, 0, 0, 0, 0, 9]
    let machine := Machine.start (.ofGroups Builtin.Group.all) .standard (.empty [])
    let result := Exec.runCode (invoke 1) code machine
    let e := DecodeError.unknownTag 9 10
    RunFollows (.start code)
      [.stopped (.decode e), .called 3 "IF", .pushed 0 (.bool true), .started 11] result ∧
    EndsAsListed code result ∧ Instruction.listing code = .error e := by
  intro code machine result e
  have hjournal : (endState result).journal =
      [.stopped (.decode e), .called 3 "IF", .pushed 0 (.bool true), .started 11] := by
    decide +kernel
  have hfailure : failure? result = some (.decode e) := by decide +kernel
  obtain ⟨entries, hentries, hfollows⟩ := straight_run_follows code machine 0 rfl
  obtain rfl := (List.append_nil entries).symm.trans (hentries.symm.trans hjournal)
  have hstraight : Journal.Straight
      [.stopped (.decode e), .called 3 "IF", .pushed 0 (.bool true), .started 11] := by
    simp [Journal.Straight]
  obtain ⟨hrun, hends⟩ := hfollows hstraight
  have hlisted : EndsAsListed code result := by
    apply hends
    intro e' hruntime
    cases hfailure.symm.trans hruntime
  exact ⟨hrun, hlisted, (hlisted.2 e).1 hfailure⟩

end Tabletop
