import Tabletop.Proofs.Correctness
import Tabletop.Proofs.Literals

/-!
# Expressions

Expressions over small integers are written with the operators behind their operands, and
conditionals with `IF`, `ELSE` and `THEN` (`Expression.tokens`). What an expression is worth is told
in exact integers (`Expression.value`), and so is every application of an operator on the way there,
in the order in which they are met (`Expression.applications`). A run of the text leaves the value
on the stack if every application is possible with 64 bits, and otherwise stops at the first that is
not (`expression_computed`).
-/

namespace Tabletop

open Exec

/-! ## Operators and relations -/

/-- The words that make an integer of two. -/
inductive Operator where
  | add | subtract | multiply | divide
deriving DecidableEq, Repr

namespace Operator

def builtin : Operator → Builtin
  | add => .add
  | subtract => .subtract
  | multiply => .multiply
  | divide => .divide

/-- The exact result. Quotients are rounded towards zero. -/
def compute : Operator → Int → Int → Int
  | add => (· + ·)
  | subtract => (· - ·)
  | multiply => (· * ·)
  | divide => Int.tdiv

end Operator

/-- The words that compare two integers. -/
inductive Relation where
  | greater | less | equal
deriving DecidableEq, Repr

namespace Relation

def builtin : Relation → Builtin
  | greater => .greater
  | less => .less
  | equal => .equal

def holds : Relation → Int → Int → Bool
  | greater, a, b => decide (b < a)
  | less, a, b => decide (a < b)
  | equal, a, b => decide (a = b)

end Relation

/-- The integer takes no more than 64 bits. -/
def IsInt64 (n : Int) : Prop := Int64.minValue.toInt ≤ n ∧ n ≤ Int64.maxValue.toInt

instance (n : Int) : Decidable (IsInt64 n) := inferInstanceAs (Decidable (_ ∧ _))

private theorem IsInt64.toInt_ofInt {n : Int} (h : IsInt64 n) : (Int64.ofInt n).toInt = n :=
  Int64.toInt_ofInt_of_le h.1 (Int.lt_of_le_of_lt h.2 (by decide))

/-- An operator applied to two integers, and the position behind its code. -/
structure Application where
  operator : Operator
  left : Int
  right : Int
  position : Nat
deriving DecidableEq, Repr

namespace Application

def result (a : Application) : Int := a.operator.compute a.left a.right

/-- The divisor is zero. -/
def DividesByZero (a : Application) : Prop := a.operator = .divide ∧ a.right = 0

instance (a : Application) : Decidable a.DividesByZero := inferInstanceAs (Decidable (_ ∧ _))

/-- Why the application is not possible, if it is not. -/
def fault? (a : Application) : Option Fault :=
  if a.DividesByZero then some .divisionByZero
  else if IsInt64 a.result then none
  else some .integerOverflow

/-- What stops the run at this application, if anything does. -/
def stop? (a : Application) : Option Stop :=
  a.fault?.map fun fault =>
    .failed (.runtime (.wordFailed a.operator.builtin.name a.position fault))

private theorem message_of_fault? {a : Application} {fault : Fault} (h : a.fault? = some fault) :
    fault.message = if a.DividesByZero then "Division by zero." else "Integer overflow." := by
  unfold fault? at h
  split at h
  · rename_i hzero
    cases h
    rw [if_pos hzero]
    rfl
  · rename_i hzero
    split at h <;> cases h
    rw [if_neg hzero]
    rfl

private theorem isInt64_of_stop? {a : Application} (h : a.stop? = none) : IsInt64 a.result := by
  rw [stop?, Option.map_eq_none_iff, fault?] at h
  split at h
  · cases h
  · split at h
    · assumption
    · cases h

end Application

/-! ## Expressions -/

mutual

inductive Expression where
  | literal (n : UInt8)
  | apply (operator : Operator) (left right : Expression)
  | choose (test : Test) (yes no : Expression)

inductive Test where
  | compare (relation : Relation) (left right : Expression)
  | not (test : Test)

end

mutual

/-- The tokens of an expression, operators behind their operands. -/
def Expression.tokens : Expression → List Token
  | .literal n => [.ofNumber n.toUInt64 .unspecified]
  | .apply operator left right =>
    left.tokens ++ (right.tokens ++ [.ofWord operator.builtin.name .unspecified])
  | .choose test yes no =>
    test.tokens ++ .ofWord "IF" .unspecified :: (yes.tokens ++ .ofWord "ELSE" .unspecified ::
      (no.tokens ++ [.ofWord "THEN" .unspecified]))

def Test.tokens : Test → List Token
  | .compare relation left right =>
    left.tokens ++ (right.tokens ++ [.ofWord relation.builtin.name .unspecified])
  | .not test => test.tokens ++ [.ofWord Builtin.not.name .unspecified]

end

mutual

/-- What an expression is worth in exact integers. -/
def Expression.value : Expression → Int
  | .literal n => n.toNat
  | .apply operator left right => operator.compute left.value right.value
  | .choose test yes no => if test.holds then yes.value else no.value

def Test.holds : Test → Bool
  | .compare relation left right => relation.holds left.value right.value
  | .not test => !test.holds

end

mutual

/-- The program of an expression. -/
def Expression.program : Expression → Program
  | .literal n => [.leaf (.literal (.int n))]
  | .apply operator left right =>
    left.program ++ (right.program ++ [.leaf (.word operator.builtin.name)])
  | .choose test yes no => test.program ++ [.ifElse yes.program no.program]

def Test.program : Test → Program
  | .compare relation left right =>
    left.program ++ (right.program ++ [.leaf (.word relation.builtin.name)])
  | .not test => test.program ++ [.leaf (.word Builtin.not.name)]

end

mutual

/-- The applications of operators in an expression whose code is at an offset, in the order in which
they are met: those of the left operand, those of the right one, the operator, and only those of the
chosen branch. -/
def Expression.applications (offset : Nat) : Expression → List Application
  | .literal _ => []
  | .apply operator left right =>
    let middle := offset + Program.size left.program
    let last := middle + Program.size right.program
    left.applications offset ++ (right.applications middle ++
      [⟨operator, left.value, right.value, last + (Instruction.exec operator.builtin.name).size⟩])
  | .choose test yes no =>
    let first := offset + Program.size test.program + branchSize
    let second := first + Program.size yes.program + jumpSize
    test.applications offset ++
      if test.holds then yes.applications first else no.applications second

def Test.applications (offset : Nat) : Test → List Application
  | .compare _ left right =>
    left.applications offset ++ right.applications (offset + Program.size left.program)
  | .not test => test.applications offset

end

/-! ## What words do to the top of the stack -/

/-- A word has left the machine as it was but for these values on the stack, or it has given up. -/
inductive Exec.Leaves (machine : Machine) (values : List Value) :
    Option Fault → EStateM.Result Stop Machine Unit → Prop
  | done {stack : Stack} : stack.values = values →
      Leaves machine values none (.ok () { machine with stack })
  | gaveUp {fault : Fault} {word : String} {position : Nat} {after : Machine} :
      Leaves machine values (some fault)
        (.error (.failed (.runtime (.wordFailed word position fault))) after)

private theorem Exec.Leaves.of_stack {machine : Machine} {stack : Stack} {values : List Value}
    {fault? : Option Fault} {result : EStateM.Result Stop Machine Unit}
    (h : Leaves { machine with stack } values fault? result) :
    Leaves machine values fault? result := by
  cases h with
  | done hvalues => exact .done hvalues
  | gaveUp => exact .gaveUp

/-- Where the values `before` are on top of the stack, they are replaced by `after`, unless there is
a fault. -/
def Exec.Replaces (x : Exec Unit) (before : List Value) (fault? : Option Fault)
    (after : List Value) : Prop :=
  ∀ machine rest, machine.stack.values = before ++ rest →
    Leaves machine (after ++ rest) fault? (x machine)

section Replaces

variable {before after : List Value} {fault? : Option Fault}

private theorem push_replaces (value : Value) : (push value).Replaces [] none [value] := by
  intro machine rest hstack
  refine .done ?_
  rw [Stack.values_push, hstack]
  rfl

private theorem fail_replaces (fault : Fault) : Exec.Replaces (fail fault) [] (some fault) after :=
  fun _ _ _ => .gaveUp

private theorem pop_replaces {value : Value} {f : Value → Exec Unit}
    (h : (f value).Replaces before fault? after) :
    (pop >>= f).Replaces (value :: before) fault? after := by
  intro machine rest hstack
  obtain ⟨stack, hpop, hvalues⟩ := Stack.pop?_of_cons hstack
  have hvalue : pop machine = .ok value { machine with stack } := by simp only [pop, hpop]
  rw [bind_eq_of_ok hvalue]
  exact (h { machine with stack } rest hvalues).of_stack

private theorem popInt_replaces {n : Int64} {f : Int64 → Exec Unit}
    (h : (f n).Replaces before fault? after) :
    (popInt >>= f).Replaces (.int n :: before) fault? after := by
  rw [popInt, popAs, bind_assoc]
  exact pop_replaces h

private theorem popBool_replaces {b : Bool} {f : Bool → Exec Unit}
    (h : (f b).Replaces before fault? after) :
    (popBool >>= f).Replaces (.bool b :: before) fault? after := by
  rw [popBool, popAs, bind_assoc]
  exact pop_replaces h

private theorem pushExact_replaces (n : Int) :
    (pushExact n).Replaces [] (if IsInt64 n then none else some .integerOverflow)
      [.int (.ofInt n)] := by
  unfold pushExact
  by_cases hbits : IsInt64 n
  · rw [if_pos hbits, show Text.toInt64? n = some (.ofInt n) from if_pos hbits]
    exact push_replaces _
  · rw [if_neg hbits, show Text.toInt64? n = none from if_neg hbits]
    exact fail_replaces _

/-- An operator leaves the exact result, if that is possible. -/
theorem Operator.run_replaces (operator : Operator) (a b : Int64) (position : Nat) :
    operator.builtin.run.Replaces [.int b, .int a]
      (Application.fault? ⟨operator, a.toInt, b.toInt, position⟩)
      [.int (.ofInt (operator.compute a.toInt b.toInt))] := by
  cases operator with
  | add | subtract | multiply => exact popInt_replaces (popInt_replaces (pushExact_replaces _))
  | divide =>
    refine popInt_replaces (popInt_replaces ?_)
    by_cases hzero : b = 0
    · have hfault : Application.fault? ⟨.divide, a.toInt, b.toInt, position⟩ =
          some .divisionByZero := if_pos ⟨rfl, by rw [hzero]; rfl⟩
      rw [if_pos hzero, hfault]
      exact fail_replaces _
    · have hfault : Application.fault? ⟨.divide, a.toInt, b.toInt, position⟩ =
          if IsInt64 (a.toInt.tdiv b.toInt) then none else some .integerOverflow :=
        if_neg fun h => hzero (Int64.toInt_inj.1 h.2)
      rw [if_neg hzero, hfault]
      exact pushExact_replaces _

/-- A relation leaves whether it holds. -/
theorem Relation.run_replaces (relation : Relation) (a b : Int64) :
    relation.builtin.run.Replaces [.int b, .int a] none
      [.bool (relation.holds a.toInt b.toInt)] := by
  cases relation with
  | greater =>
    simp only [holds, ← Int64.lt_iff_toInt_lt]
    exact popInt_replaces (popInt_replaces (push_replaces _))
  | less =>
    simp only [holds, ← Int64.lt_iff_toInt_lt]
    exact popInt_replaces (popInt_replaces (push_replaces _))
  | equal =>
    have hequal : decide (Value.int a = .int b) = decide (a.toInt = b.toInt) := by
      simp [Int64.toInt_inj]
    rw [holds, ← hequal]
    exact pop_replaces (pop_replaces (push_replaces _))

private theorem not_replaces (b : Bool) : Builtin.not.run.Replaces [.bool b] none [.bool !b] :=
  popBool_replaces (push_replaces _)

end Replaces

/-! ## Runs that turn values into others -/

/-- The meaning of a program has left the world as it was but for these values on the stack, or it
has stopped. -/
inductive Eval.Reaches (world : World) (values : List Value) :
    Option Stop → EStateM.Result Stop World Unit → Prop
  | done {stack : Stack} : stack.values = values →
      Reaches world values none (.ok () { world with stack })
  | stopped {stop : Stop} {after : World} : Reaches world values (some stop) (.error stop after)

namespace Eval

private theorem Reaches.of_stack {world : World} {stack : Stack} {values : List Value}
    {stop? : Option Stop} {result : EStateM.Result Stop World Unit}
    (h : Reaches { world with stack } values stop? result) : Reaches world values stop? result := by
  cases h with
  | done hvalues => exact .done hvalues
  | stopped => exact .stopped

/-- Where the values `before` are on top of the stack, they are turned into `after`, unless there is
a stop. -/
def Turns (x : Eval Unit) (before : List Value) (stop? : Option Stop) (after : List Value) : Prop :=
  ∀ world rest, world.stack.values = before ++ rest → Reaches world (after ++ rest) stop? (x world)

variable {x y : Eval Unit} {before middle after : List Value} {first second : Option Stop}

/-- Values further down the stack do not matter. -/
theorem Turns.frame (h : x.Turns before first after) (deeper : List Value) :
    x.Turns (before ++ deeper) first (after ++ deeper) := by
  intro world rest hstack
  rw [List.append_assoc] at hstack ⊢
  exact h world (deeper ++ rest) hstack

/-- What follows only matters if it is reached. -/
theorem Turns.andThen (hx : x.Turns before first middle)
    (hy : first = none → y.Turns middle second after) :
    (x >>= fun _ => y).Turns before (first.or second) after := by
  intro world rest hstack
  have hreaches := hx world rest hstack
  generalize hrun : x world = result at hreaches
  cases hreaches with
  | done hvalues =>
    rw [Option.none_or, bind_eq_of_ok hrun]
    exact (hy rfl _ rest hvalues).of_stack
  | stopped =>
    rw [bind_eq_of_error hrun]
    exact .stopped

private theorem push_turns (value : Value) : (push value).Turns [] none [value] := by
  intro world rest hstack
  refine .done ?_
  rw [Stack.values_push, hstack]
  rfl

/-- A word that gives up is blamed for it. -/
theorem word_turns {b : Builtin} {fault? : Option Fault} (h : b.run.Replaces before fault? after)
    (position : Nat) :
    (word b.name position).Turns before
      (fault?.map fun fault => .failed (.runtime (.wordFailed b.name position fault))) after := by
  intro world rest hstack
  have hleaves := h world.machine rest hstack
  unfold word
  rw [Builtin.ofName?_name]
  dsimp only
  generalize b.run world.machine = result at hleaves
  cases hleaves with
  | done hvalues => exact .done hvalues
  | gaveUp => exact .stopped

/-- A conditional takes its flag and goes on with one of its bodies. -/
theorem ifElse_turns {offset : Nat} {yes no : Program} {flag : Bool}
    (hyes : flag = true → (Program.eval (offset + branchSize) yes).Turns before first after)
    (hno : flag = false → (Program.eval
      (offset + branchSize + Program.size yes + jumpSize) no).Turns before first after) :
    (Item.eval offset (.ifElse yes no)).Turns (.bool flag :: before) first after := by
  intro world rest hstack
  obtain ⟨stack, hpop, hvalues⟩ := Stack.pop?_of_cons hstack
  have hflag : popFlag world = .ok flag { world with stack } := by simp only [popFlag, hpop]
  rw [Item.eval, bind_eq_of_ok hflag]
  cases flag with
  | true => exact (hyes rfl _ rest hvalues).of_stack
  | false => exact (hno rfl _ rest hvalues).of_stack

end Eval

/-! ## What expressions turn into -/

/-- If nothing went wrong, then the value can be written with 64 bits. -/
theorem Expression.isInt64 : ∀ (e : Expression) {offset : Nat},
    (e.applications offset).findSome? Application.stop? = none → IsInt64 e.value
  | .literal n, offset, _ => by
    have hmin : Int64.minValue.toInt ≤ 0 := by decide
    have hmax : 255 ≤ Int64.maxValue.toInt := by decide
    have hn := n.toNat_lt
    rw [value]
    exact ⟨by omega, by omega⟩
  | .apply operator left right, offset, h => by
    rw [applications, List.findSome?_append, List.findSome?_append, List.findSome?_singleton,
      Option.or_eq_none_iff, Option.or_eq_none_iff] at h
    rw [value]
    exact Application.isInt64_of_stop? h.2.2
  | .choose test yes no, offset, h => by
    rw [applications, List.findSome?_append, Option.or_eq_none_iff] at h
    rw [value]
    cases hholds : test.holds with
    | true =>
      rw [hholds] at h
      exact yes.isInt64 h.2
    | false =>
      rw [hholds] at h
      exact no.isInt64 h.2

mutual

/-- An expression turns into its value, or stops at the first application that is not possible. -/
theorem Expression.turns : ∀ (e : Expression) (offset : Nat),
    (Program.eval offset e.program).Turns []
      ((e.applications offset).findSome? Application.stop?) [.int (.ofInt e.value)]
  | .literal n, offset => by
    rw [Expression.program, Program.eval_singleton, Expression.value, Int64.ofInt_eq_ofNat]
    exact Eval.push_turns _
  | .apply operator left right, offset => by
    rw [Expression.program, Program.eval_append, Program.eval_append, Program.eval_singleton,
      Expression.applications, List.findSome?_append, List.findSome?_append,
      List.findSome?_singleton, Expression.value]
    refine (left.turns offset).andThen fun hleft => ?_
    refine ((right.turns _).frame [.int (.ofInt left.value)]).andThen fun hright => ?_
    -- Nothing has stopped the operands, so what is on the stack for them is exact.
    have hrun := operator.run_replaces (.ofInt left.value) (.ofInt right.value)
    rw [(left.isInt64 hleft).toInt_ofInt, (right.isInt64 hright).toInt_ofInt] at hrun
    exact Eval.word_turns (hrun _) _
  | .choose test yes no, offset => by
    rw [Expression.program, Program.eval_append, Program.eval_singleton, Expression.applications,
      List.findSome?_append, Expression.value]
    refine (test.turns offset).andThen fun _ => ?_
    refine Eval.ifElse_turns (fun hholds => ?_) fun hholds => ?_
    · rw [if_pos hholds, if_pos hholds]
      exact yes.turns _
    · rw [if_neg (by simp [hholds]), if_neg (by simp [hholds])]
      exact no.turns _

/-- A test turns into whether it holds, unless its operands stop. -/
theorem Test.turns : ∀ (test : Test) (offset : Nat),
    (Program.eval offset test.program).Turns []
      ((test.applications offset).findSome? Application.stop?) [.bool test.holds]
  | .compare relation left right, offset => by
    rw [Test.program, Program.eval_append, Program.eval_append, Program.eval_singleton,
      Test.applications, List.findSome?_append, Test.holds]
    refine (left.turns offset).andThen fun hleft => ?_
    rw [← Option.or_none (o := List.findSome? _ _)]
    refine ((right.turns _).frame [.int (.ofInt left.value)]).andThen fun hright => ?_
    have hrun := relation.run_replaces (.ofInt left.value) (.ofInt right.value)
    rw [(left.isInt64 hleft).toInt_ofInt, (right.isInt64 hright).toInt_ofInt] at hrun
    exact Eval.word_turns hrun _
  | .not test, offset => by
    rw [Test.program, Program.eval_append, Program.eval_singleton, Test.applications, Test.holds,
      ← Option.or_none (o := List.findSome? _ _)]
    exact (test.turns offset).andThen fun _ => Eval.word_turns (not_replaces _) _

end

/-! ## The tokens of an expression -/

/-- The name is read as a word, and as nothing else. -/
def Token.isPlain (name : String) : Bool :=
  name.toList.all isGraphic && !name.toList.all Text.isDigit &&
    name.toList.head? != some '\"' && (Direction.ofName? name).isNone && (boolOfName? name).isNone

private theorem Token.ofWord_legible {name : String} (h : isPlain name = true)
    (location : Location) :
    (ofWord name location).Legible := by
  simp only [isPlain, Bool.and_eq_true, Bool.not_eq_true', bne_iff_ne,
    Option.isNone_iff_eq_none] at h
  obtain ⟨⟨⟨⟨hgraphic, hdigits⟩, hquote⟩, hdirection⟩, hbool⟩ := h
  have hnonempty : name.toList ≠ [] := fun hnil => by simp [hnil] at hdigits
  refine (Writable.word location ⟨hnonempty, List.all_eq_true.1 hgraphic, hquote⟩ ?_ ?_ ?_).legible
  · rw [← List.all_eq_true, hdigits]
    decide
  · rintro d rfl
    simp at hdirection
  · rintro b rfl
    simp at hbool

/-- A built-in word that does not steer the run is a leaf. -/
theorem Builtin.denotes {b : Builtin} (h : ¬ b.Steers) (location : Location) :
    (Token.ofWord b.name location).Denotes (.word b.name) := by
  have hname : isEncodableName b.name = true := by cases b <;> decide
  obtain ⟨hmarker, hjump⟩ : b.name ∉ Token.markers ∧ b.name ≠ jumpName := by
    cases b with
    | branch => exact absurd (.inl rfl) h
    | jump => exact absurd (.inr rfl) h
    | _ => decide
  obtain ⟨hnonempty, hascii⟩ := isEncodableName_iff.1 hname
  exact .word ⟨rfl, rfl⟩ hmarker hnonempty hascii hjump

mutual

theorem Expression.spells : ∀ e : Expression, Spells e.tokens e.program
  | .literal n => by
    have hbyte : n.toUInt64.toNat ≤ 255 := by
      have hn := n.toNat_lt
      rw [UInt8.toNat_toUInt64]
      omega
    have hdenotes : (Token.ofNumber n.toUInt64 .unspecified).Denotes
        (.literal (.int n.toUInt64.toUInt8)) := .number rfl rfl hbyte
    rw [UInt8.toUInt8_toUInt64] at hdenotes
    exact .leaf hdenotes .nil
  | .apply operator left right => by
    rw [Expression.tokens, Expression.program]
    refine left.spells.append (right.spells.append (.leaf (Builtin.denotes ?_ _) .nil))
    cases operator <;> simp [Operator.builtin, Builtin.Steers]
  | .choose test yes no => by
    rw [Expression.tokens, Expression.program]
    exact test.spells.append
      (.ifElse ⟨rfl, rfl⟩ yes.spells ⟨rfl, rfl⟩ no.spells ⟨rfl, rfl⟩ .nil)

theorem Test.spells : ∀ test : Test, Spells test.tokens test.program
  | .compare relation left right => by
    rw [Test.tokens, Test.program]
    refine left.spells.append (right.spells.append (.leaf (Builtin.denotes ?_ _) .nil))
    cases relation <;> simp [Relation.builtin, Builtin.Steers]
  | .not test => by
    rw [Test.tokens, Test.program]
    exact test.spells.append (.leaf (Builtin.denotes (by simp [Builtin.Steers]) _) .nil)

end

mutual

theorem Expression.legible : ∀ e : Expression, ∀ token ∈ e.tokens, token.Legible
  | .literal n => by
    rw [Expression.tokens]
    exact List.forall_mem_singleton.2 (Token.Writable.number _ _).legible
  | .apply operator left right => by
    simp only [Expression.tokens, List.forall_mem_append, List.forall_mem_singleton]
    exact ⟨left.legible, right.legible, Token.ofWord_legible (by cases operator <;> decide) _⟩
  | .choose test yes no => by
    simp only [Expression.tokens, List.forall_mem_append, List.forall_mem_cons]
    exact ⟨test.legible, Token.ofWord_legible (by decide) _, yes.legible,
      Token.ofWord_legible (by decide) _, no.legible, Token.ofWord_legible (by decide) _, by simp⟩

theorem Test.legible : ∀ test : Test, ∀ token ∈ test.tokens, token.Legible
  | .compare relation left right => by
    simp only [Test.tokens, List.forall_mem_append, List.forall_mem_singleton]
    exact ⟨left.legible, right.legible, Token.ofWord_legible (by cases relation <;> decide) _⟩
  | .not test => by
    simp only [Test.tokens, List.forall_mem_append, List.forall_mem_singleton]
    exact ⟨test.legible, Token.ofWord_legible (by decide) _⟩

end

/-- If the text of an expression has code, then it is that of its program. -/
theorem Expression.code_eq {e : Expression} {path : String} {spacing : Spacing Token} {code : Code}
    (hitems : spacing.items = e.tokens) (h : codeOf path (spacing.text Token.lexeme) = .ok code) :
    code = e.program.code ∧ Program.Sound 0 e.program := by
  obtain ⟨tokens, hscan, hcompile⟩ := codeOf_eq_ok h
  have hlegible : ∀ token ∈ spacing.items, token.Legible := hitems ▸ e.legible
  obtain ⟨tokens', hscan', hsame⟩ := Token.scan_legible path spacing hlegible
  cases hscan.symm.trans hscan'
  rw [hitems] at hsame
  have hspells := e.spells.of_same hsame
  obtain ⟨program, hprogram, rfl⟩ := compile_eq_ok.1 hcompile
  have hreach := (Program.ofTokens_eq_ok.1 hprogram).2
  cases hprogram.symm.trans (Program.ofTokens_eq_ok.2 ⟨hspells, hreach⟩)
  exact ⟨rfl, hspells.sound hreach⟩

/-! ## Runs of the text of an expression -/

section Perform

variable {machine : Machine} {path : String} {e : Expression} {spacing : Spacing Token}
  {code : Code}

/-- A run of the text of an expression ends as its program does. -/
theorem Expression.perform_reaches (hwords : machine.dictionary = .ofGroups Builtin.Group.all)
    (hitems : spacing.items = e.tokens)
    (hcode : codeOf path (spacing.text Token.lexeme) = .ok code) :
    Eval.Reaches ⟨.empty, machine.robot, machine.output⟩ [.int (.ofInt e.value)]
      ((e.applications 0).findSome? Application.stop?)
      (viewState Machine.world
        (Exec.runSource (invoke deepestCall) path (spacing.text Token.lexeme) machine)) := by
  obtain ⟨rfl, hsound⟩ := Expression.code_eq hitems hcode
  let journal : Journal := (loadLog path (spacing.text Token.lexeme)).reverse ++ machine.journal
  obtain ⟨depth, hdepth⟩ := exists_deepestCall
  have hrun := @viewState_runCode depth e.program { machine with stack := .empty, journal } hsound
    hwords
  rw [← hdepth] at hrun
  rw [runSource_of_ok hcode, hrun]
  exact e.turns 0 _ [] rfl

/-- Expressions are computed exactly or not at all. If every application that is met is possible
with 64 bits, then the value is left on the stack, and nothing else. Otherwise the first that is not
possible stops the run, with its operator to blame. -/
theorem expression_computed (hwords : machine.dictionary = .ofGroups Builtin.Group.all)
    (hitems : spacing.items = e.tokens)
    (hcode : codeOf path (spacing.text Token.lexeme) = .ok code) :
    let result := machine.perform (.runSource path (spacing.text Token.lexeme))
    ((∀ a ∈ e.applications 0, a.fault? = none) →
      ∃ n after, result = .ok .nothing after ∧ after.stack.toList = [.int n] ∧
        n.toInt = e.value) ∧
    ((¬ ∀ a ∈ e.applications 0, a.fault? = none) →
      ∃ done a rest fault after, e.applications 0 = done ++ a :: rest ∧
        (∀ b ∈ done, b.fault? = none) ∧ a.fault? = some fault ∧
        fault.message = (if a.DividesByZero then "Division by zero." else "Integer overflow.") ∧
        result = .error (.failed (.runtime
          (.wordFailed a.operator.builtin.name a.position fault))) after) := by
  intro result
  have hstop : ∀ a : Application, a.fault? = none ↔ a.stop? = none :=
    fun a => Option.map_eq_none_iff.symm
  have hreaches := Expression.perform_reaches hwords hitems hcode
  simp only [hstop, ← List.findSome?_eq_none_iff]
  generalize hstops : (e.applications 0).findSome? Application.stop? = stop? at hreaches
  generalize hview : viewState Machine.world _ = view at hreaches
  generalize hrun : Exec.runSource _ path _ machine = outcome at hview
  cases hreaches with
  | @done stack hvalues =>
    refine ⟨fun _ => ?_, fun hsome => absurd rfl hsome⟩
    cases outcome with
    | error stop after => cases hview
    | ok u after =>
      have hstack : after.stack = stack := congrArg World.stack (EStateM.Result.ok.inj hview).2
      refine ⟨.ofInt e.value, after, bind_eq_of_ok hrun, ?_, (e.isInt64 hstops).toInt_ofInt⟩
      rw [hstack, Stack.toList, hvalues]
      rfl
  | stopped =>
    refine ⟨fun hnone => absurd hnone (Option.some_ne_none _), fun _ => ?_⟩
    cases outcome with
    | ok u after => cases hview
    | error stop after =>
      cases hview
      obtain ⟨done, a, rest, happlications, ha, hdone⟩ := List.findSome?_eq_some_iff.1 hstops
      obtain ⟨fault, hfault, rfl⟩ := Option.map_eq_some_iff.1 ha
      exact ⟨done, a, rest, fault, after, happlications, List.findSome?_eq_none_iff.2 hdone, hfault,
        Application.message_of_fault? hfault, bind_eq_of_error hrun⟩

end Perform

/-- A negative quotient in a conditional whose other branch divides by zero, and the least integer
divided by minus one. -/
theorem expression_computed_limits :
    let machine := Machine.standard .standard
    let minus (n : UInt8) : Expression := .apply .subtract (.literal 0) (.literal n)
    let least := (List.replicate 8 (Expression.literal 128)).foldl (.apply .multiply) (minus 128)
    let source := "0 128 - 128 * 128 * 128 * 128 * 128 * 128 * 128 * 128 * 0 1 - /"
    (∃ n after, machine.perform (.runSource "p" "1 2 GT NOT IF 0 7 - 2 / ELSE 1 0 / THEN") =
        .ok .nothing after ∧ after.stack.toList = [.int n] ∧ n.toInt = -3) ∧
    least.value = Int64.minValue.toInt ∧
    ∃ done a rest fault after,
      (Expression.apply .divide least (minus 1)).applications 0 = done ++ a :: rest ∧
      (∀ b ∈ done, b.fault? = none) ∧ a.fault? = some fault ∧
      fault.message = (if a.DividesByZero then "Division by zero." else "Integer overflow.") ∧
      machine.perform (.runSource "p" source) = .error (.failed (.runtime
        (.wordFailed a.operator.builtin.name a.position fault))) after := by
  intro machine minus least source
  refine ⟨?_, by decide +kernel, ?_⟩
  · let e : Expression := .choose (.not (.compare .greater (.literal 1) (.literal 2)))
      (.apply .divide (minus 7) (.literal 2)) (.apply .divide (.literal 1) (.literal 0))
    have htext : (Spacing.single e.tokens).text Token.lexeme =
        "1 2 GT NOT IF 0 7 - 2 / ELSE 1 0 / THEN" := by decide +kernel
    obtain ⟨code, hcode⟩ := @exists_codeOf "p" ((Spacing.single e.tokens).text Token.lexeme)
      (by decide +kernel)
    have hcomputed := @expression_computed machine _ e _ _ rfl (Spacing.items_single _) hcode
    rw [htext] at hcomputed
    have hpossible : ((e.applications 0).all (·.fault?.isNone)) = true := by decide +kernel
    exact hcomputed.1 fun a ha => Option.isNone_iff_eq_none.1 (List.all_eq_true.1 hpossible a ha)
  · let e : Expression := .apply .divide least (minus 1)
    have htext : (Spacing.single e.tokens).text Token.lexeme = source := by decide +kernel
    obtain ⟨code, hcode⟩ := @exists_codeOf "p" ((Spacing.single e.tokens).text Token.lexeme)
      (by decide +kernel)
    have hcomputed := @expression_computed machine _ e _ _ rfl (Spacing.items_single _) hcode
    rw [htext] at hcomputed
    refine hcomputed.2 fun hall => ?_
    have hpossible : ((e.applications 0).all (·.fault?.isNone)) = false := by decide +kernel
    rw [List.all_eq_true.2 fun a ha => Option.isNone_iff_eq_none.2 (hall a ha)] at hpossible
    cases hpossible

end Tabletop
