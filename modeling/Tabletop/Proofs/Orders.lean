import Mathlib.Logic.Function.Iterate
import Tabletop.Proofs.Confinement

/-!
# Series of orders

What a robot does with orders that it is given one after the other. No direction is preferred: if
the table is turned by a quarter, together with the robot on it and the squares that it is put on,
the same orders are followed (`rotation_symmetric`). A robot that is told to move on and on walks
to the edge of the table and stays there, and from there the same number of steps leads back
(`walk_saturates`).
-/

namespace Tabletop

namespace Robot

/-- Give a robot orders one after the other. Tells which of them were followed, and the robot at the
end. -/
def followAll (robot : Robot) : List Order → List Bool × Robot
  | [] => ([], robot)
  | order :: orders =>
    let rest := (robot.follow order).2.1.followAll orders
    ((robot.follow order).1 :: rest.1, rest.2)

/-- The robot may be found on the table after some orders. -/
def Reachable (table : Table) (robot : Robot) : Prop :=
  ∃ orders, ((unplaced table).followAll orders).2 = robot

section FollowAll

variable {robot robot' middle last : Robot} {table : Table} {order : Order}
  {front back orders : List Order} {done done' : List Bool}

private theorem follow_done (robot : Robot) (order : Order) :
    (robot.follow order).1 = (robot.obey order).toOption.isSome := by
  unfold follow
  cases robot.obey order <;> rfl

private theorem follow_robot (robot : Robot) (order : Order) :
    (robot.follow order).2.1 = (robot.obey order).toOption.getD robot := by
  unfold follow
  cases robot.obey order <;> rfl

private theorem followAll_cons_of_ok (h : robot.obey order = .ok robot')
    (hrest : robot'.followAll orders = (done, last)) :
    robot.followAll (order :: orders) = (true :: done, last) := by
  simp only [followAll, follow_done, follow_robot, h, Except.toOption, Option.getD_some, hrest]
  rfl

private theorem followAll_cons_of_error {refusal : Refusal} (h : robot.obey order = .error refusal)
    (hrest : robot.followAll orders = (done, last)) :
    robot.followAll (order :: orders) = (false :: done, last) := by
  simp only [followAll, follow_done, follow_robot, h, Except.toOption, Option.getD_none, hrest]
  rfl

private theorem followAll_append (hfront : robot.followAll front = (done, middle))
    (hback : middle.followAll back = (done', last)) :
    robot.followAll (front ++ back) = (done ++ done', last) := by
  induction front generalizing robot done with
  | nil =>
    cases hfront
    exact hback
  | cons order orders ih =>
    obtain ⟨rfl, hmiddle⟩ := Prod.mk.inj hfront
    have hrest := ih (Prod.ext rfl hmiddle)
    simp only [List.cons_append, followAll, hrest]

private theorem followAll_roams (robot : Robot) (orders : List Order) :
    robot.Roams (robot.followAll orders).2 := by
  induction orders generalizing robot with
  | nil => exact refl_of Robot.Roams robot
  | cons order orders ih => exact trans_of Robot.Roams (robot.follow_roams order) (ih _)

private theorem Reachable.table_eq (h : robot.Reachable table) : robot.table = table := by
  obtain ⟨orders, rfl⟩ := h
  exact (followAll_roams _ orders).table

theorem Reachable.onTable (h : robot.Reachable table) : robot.OnTable := by
  obtain ⟨orders, rfl⟩ := h
  refine (followAll_roams _ orders).onTable ?_
  rintro pose ⟨⟩

end FollowAll

end Robot

/-! ## Exact coordinates -/

private theorem SumFits.toInt_add {a b : Int64} (h : SumFits a b) :
    (a + b).toInt = a.toInt + b.toInt := by
  obtain ⟨hlow, hhigh⟩ := h
  rw [Int64.toInt_minValue] at hlow
  rw [Int64.toInt_maxValue] at hhigh
  rw [Int64.toInt_add]
  exact Int.bmod_eq_of_le (by omega) (by omega)

private theorem Pose.AheadFits.toInt_x {pose : Pose} (h : pose.AheadFits) :
    pose.ahead.x.toInt = pose.x.toInt + pose.facing.dx.toInt :=
  h.1.toInt_add

private theorem Pose.AheadFits.toInt_y {pose : Pose} (h : pose.AheadFits) :
    pose.ahead.y.toInt = pose.y.toInt + pose.facing.dy.toInt :=
  h.2.toInt_add

/-! ## Turning the table -/

/-- The table after a quarter turn clockwise. -/
def Table.rotated (table : Table) : Table := ⟨table.height, table.width⟩

/-- The pose after a quarter turn clockwise of a table of the given width. -/
def Pose.rotated (width : Int64) (pose : Pose) : Pose :=
  ⟨pose.y, width - 1 - pose.x, pose.facing.right⟩

/-- The robot after a quarter turn clockwise of the table that it is on. -/
def Robot.rotated (robot : Robot) : Robot :=
  ⟨robot.table.rotated, robot.pose.map (Pose.rotated robot.table.width)⟩

/-- The order for a robot on the turned table, where `width` is that of the table before. -/
def Order.rotated (width : Int64) : Order → Order
  | place x y facing => place y (width - 1 - x) facing.right
  | move => move
  | left => left
  | right => right

/-- The coordinate that `x` becomes on the turned table is a number of 64 bits. -/
def Mirrorable (width x : Int64) : Prop :=
  Int64.minValue.toInt ≤ width.toInt - 1 - x.toInt ∧
    width.toInt - 1 - x.toInt ≤ Int64.maxValue.toInt

/-- If the order puts the robot somewhere, then there is such a place for the turned table. -/
def Order.Rotatable (width : Int64) : Order → Prop
  | place x _ _ => Mirrorable width x
  | _ => True

section Rotation

variable {table : Table} {robot : Robot} {pose : Pose} {width x y : Int64} {order : Order}

private theorem Mirrorable.toInt_eq (h : Mirrorable width x) :
    (width - 1 - x).toInt = width.toInt - 1 - x.toInt := by
  obtain ⟨hlow, hhigh⟩ := h
  rw [Int64.toInt_minValue] at hlow
  rw [Int64.toInt_maxValue] at hhigh
  rw [Int64.toInt_sub, Int64.toInt_sub, Int.bmod_sub_bmod, Int64.toInt_one]
  exact Int.bmod_eq_of_le (by omega) (by omega)

/-- The squares of the turned table are those of the table, turned. -/
theorem Table.contains_rotated (h : Mirrorable table.width x) :
    table.rotated.Contains y (table.width - 1 - x) ↔ table.Contains x y := by
  rw [Table.contains_iff, Table.contains_iff, h.toInt_eq]
  simp only [Table.rotated]
  omega

private theorem Direction.dx_right (d : Direction) : d.right.dx = d.dy := by
  cases d <;> rfl

private theorem Direction.dy_right (d : Direction) : d.right.dy = -d.dx := by
  cases d <;> rfl

/-- A step forward on the turned table is the step forward, turned. -/
theorem Pose.ahead_rotated (pose : Pose) (width : Int64) :
    (pose.rotated width).ahead = pose.ahead.rotated width := by
  simp only [Pose.ahead, Pose.rotated, Direction.dx_right, Direction.dy_right, Pose.mk.injEq,
    true_and, and_true]
  grind

/-- One step off the table, the coordinates can still be turned. -/
theorem Robot.OnTable.mirrorable_ahead (h : robot.OnTable) (hpose : pose ∈ robot.pose) :
    Mirrorable robot.table.width pose.ahead.x := by
  obtain ⟨hx, hx', -⟩ := h pose hpose
  obtain ⟨hdx, hdx', -⟩ := pose.facing.abs_step_le
  have hwidth := robot.table.width.toInt_lt
  have hahead := (h.aheadFits hpose).toInt_x
  rw [Mirrorable, Int64.toInt_minValue, Int64.toInt_maxValue]
  omega

private theorem Robot.turn_rotated (robot : Robot) {rotate : Direction → Direction}
    (h : ∀ d, (rotate d).right = rotate d.right) :
    (robot.rotated.turn rotate).toOption = (robot.turn rotate).toOption.map Robot.rotated := by
  unfold Robot.turn
  cases hpose : robot.pose with
  | none => simp [Robot.rotated, hpose, Except.toOption]
  | some pose => simp [Robot.rotated, Pose.rotated, hpose, Except.toOption, h]

/-- The turned robot obeys the turned order if the robot obeys the order, and then it is where that
takes the robot, turned. -/
theorem Robot.obey_rotated (h : robot.OnTable) (horder : order.Rotatable robot.table.width) :
    (robot.rotated.obey (order.rotated robot.table.width)).toOption =
      (robot.obey order).toOption.map Robot.rotated := by
  cases order with
  | place x y facing =>
    have hcontains := Table.contains_rotated (y := y) horder
    by_cases hon : robot.table.Contains x y
    · simp [Robot.obey, Order.rotated, Robot.rotated, Pose.rotated, hcontains, hon, Except.toOption]
    · simp [Robot.obey, Order.rotated, Robot.rotated, hcontains, hon, Except.toOption]
  | move =>
    cases hpose : robot.pose with
    | none => simp [Robot.obey, Order.rotated, Robot.rotated, hpose, Except.toOption]
    | some pose =>
      have hcontains : robot.table.rotated.Contains (pose.ahead.rotated robot.table.width).x
            (pose.ahead.rotated robot.table.width).y ↔
          robot.table.Contains pose.ahead.x pose.ahead.y :=
        Table.contains_rotated (h.mirrorable_ahead hpose)
      by_cases hon : robot.table.Contains pose.ahead.x pose.ahead.y
      · simp [Robot.obey, Order.rotated, Robot.rotated, Pose.ahead_rotated, hpose, hcontains, hon,
          Except.toOption]
      · simp [Robot.obey, Order.rotated, Robot.rotated, Pose.ahead_rotated, hpose, hcontains, hon,
          Except.toOption]
  | left => exact robot.turn_rotated fun d => by simp
  | right => exact robot.turn_rotated fun _ => rfl

private theorem Robot.followAll_rotated {orders : List Order} (h : robot.OnTable)
    (horders : ∀ order ∈ orders, order.Rotatable robot.table.width) :
    robot.rotated.followAll (orders.map (Order.rotated robot.table.width)) =
      ((robot.followAll orders).1, (robot.followAll orders).2.rotated) := by
  induction orders generalizing robot with
  | nil => rfl
  | cons order orders ih =>
    obtain ⟨horder, hrest⟩ := List.forall_mem_cons.1 horders
    have hroams := robot.follow_roams order
    have hobey := Robot.obey_rotated h horder
    have hnext : (robot.rotated.follow (order.rotated robot.table.width)).2.1 =
        (robot.follow order).2.1.rotated := by
      rw [follow_robot, follow_robot, hobey, Option.getD_map]
    have hih := ih (hroams.onTable h) (hroams.table ▸ hrest)
    rw [hroams.table] at hih
    simp only [List.map_cons, Robot.followAll, hnext, hih, follow_done, hobey, Option.isSome_map]

/-- On a table of any size, turn a robot that may be found there, together with the table and the
squares that it is told to go to. Then the same orders are followed, and at the end the robot is
where they would have taken it, turned. -/
theorem rotation_symmetric {orders : List Order} (hreach : robot.Reachable table)
    (horders : ∀ order ∈ orders, order.Rotatable table.width) :
    robot.rotated.followAll (orders.map (Order.rotated table.width)) =
      ((robot.followAll orders).1, (robot.followAll orders).2.rotated) := by
  obtain rfl := hreach.table_eq
  exact Robot.followAll_rotated hreach.onTable horders

/-- A table that is no square. The robot is in a corner and refuses to leave it, and then goes to
the opposite corner. -/
theorem rotation_symmetric_corners :
    let robot : Robot := ⟨⟨3, 2⟩, some ⟨2, 0, .east⟩⟩
    let orders : List Order := [.move, .left, .move, .place 9223372036854775807 1 .west,
      .place 0 1 .south, .move, .right]
    let done := [false, true, true, false, true, true, true]
    robot.followAll orders = (done, ⟨⟨3, 2⟩, some ⟨0, 0, .west⟩⟩) ∧
      robot.rotated = ⟨⟨2, 3⟩, some ⟨0, 0, .south⟩⟩ ∧
      robot.rotated.followAll (orders.map (Order.rotated 3)) =
        (done, ⟨⟨2, 3⟩, some ⟨0, 2, .north⟩⟩) := by
  intro robot orders done
  have hreach : robot.Reachable ⟨3, 2⟩ := ⟨[.place 2 0 .east], by decide⟩
  have horders : ∀ order ∈ orders, order.Rotatable 3 := by
    simp [orders, Order.Rotatable, Mirrorable, Int64.toInt_maxValue]
  have hrun : robot.followAll orders = (done, ⟨⟨3, 2⟩, some ⟨0, 0, .west⟩⟩) := by decide
  have hlast : Robot.rotated ⟨⟨3, 2⟩, some ⟨0, 0, .west⟩⟩ = ⟨⟨2, 3⟩, some ⟨0, 2, .north⟩⟩ := by
    decide
  have hrotated := rotation_symmetric hreach horders
  rw [hrun] at hrotated
  exact ⟨hrun, by decide, hrotated.trans (congrArg (Prod.mk done) hlast)⟩

end Rotation

/-! ## Walking -/

/-- The same square, looking the other way. -/
def Pose.reversed (pose : Pose) : Pose := { pose with facing := pose.facing.right.right }

/-- The pose is on a square of the table. -/
def Pose.On (table : Table) (pose : Pose) : Prop := table.Contains pose.x pose.y

/-- How many squares lie between the pose and the edge of the table that it looks at. -/
def Table.roomAhead (table : Table) (pose : Pose) : Nat :=
  match pose.facing with
  | .north => (table.height.toInt - 1 - pose.y.toInt).toNat
  | .east => (table.width.toInt - 1 - pose.x.toInt).toNat
  | .south => pose.y.toInt.toNat
  | .west => pose.x.toInt.toNat

/-- The coordinate next to `n` along an edge of the given length. -/
def clampTo (length : Int64) (n : Int) : Int := max 0 (min n (length.toInt - 1))

section Walking

variable {table : Table} {pose : Pose} {k n : Nat}

open Robot

private theorem Pose.reversed_reversed (pose : Pose) : pose.reversed.reversed = pose := by
  obtain ⟨x, y, facing⟩ := pose
  cases facing <;> rfl

/-- Offsets of opposite directions cancel. -/
theorem Pose.ahead_reversed_ahead (pose : Pose) : pose.ahead.reversed.ahead = pose.reversed := by
  obtain ⟨x, y, facing⟩ := pose
  cases facing <;>
    simp only [Pose.ahead, Pose.reversed, Direction.right, Direction.dx, Direction.dy,
      Pose.mk.injEq, and_true] <;> grind

/-- Steps that are made looking back take back as many steps made before. -/
theorem Pose.iterate_ahead_reversed (pose : Pose) (k : Nat) :
    Pose.ahead^[k] (Pose.ahead^[k] pose).reversed = pose.reversed := by
  induction k with
  | zero => rfl
  | succ k ih =>
    rw [Function.iterate_succ_apply, Function.iterate_succ_apply', ahead_reversed_ahead, ih]

private theorem Pose.facing_iterate_ahead (pose : Pose) (k : Nat) :
    (Pose.ahead^[k] pose).facing = pose.facing := by
  induction k with
  | zero => rfl
  | succ k ih => rw [Function.iterate_succ_apply', Pose.ahead, ih]

private theorem Pose.on_iff : pose.On table ↔
    0 ≤ pose.x.toInt ∧ pose.x.toInt < table.width.toInt ∧ 0 ≤ pose.y.toInt ∧
      pose.y.toInt < table.height.toInt :=
  Table.contains_iff

theorem Pose.On.aheadFits (h : pose.On table) : pose.AheadFits := by
  have htable : Robot.OnTable ⟨table, some pose⟩ := by
    rintro _ ⟨⟩
    exact on_iff.1 h
  exact htable.aheadFits rfl

/-- Steps in one direction lead as far away as there are steps. -/
theorem Direction.distance (d : Direction) (k : Nat) :
    (k * d.dx.toInt).natAbs + (k * d.dy.toInt).natAbs = k := by
  cases d <;> simp [Direction.dx, Direction.dy]

/-- There is room for `k` steps if the sums that they lead to are coordinates on the table. -/
theorem Pose.On.le_roomAhead_iff (h : pose.On table) :
    k ≤ table.roomAhead pose ↔
      0 ≤ pose.x.toInt + k * pose.facing.dx.toInt ∧
      pose.x.toInt + k * pose.facing.dx.toInt < table.width.toInt ∧
      0 ≤ pose.y.toInt + k * pose.facing.dy.toInt ∧
      pose.y.toInt + k * pose.facing.dy.toInt < table.height.toInt := by
  have hbounds := on_iff.1 h
  cases hfacing : pose.facing <;>
    simp only [Table.roomAhead, hfacing, Direction.dx, Direction.dy, Int64.reduceToInt] <;> omega

/-- Of `n` steps, those that there is room for lead to the square of the table next to where all of
them would. -/
theorem Pose.On.clampTo_eq (h : pose.On table) (hk : k = min n (table.roomAhead pose)) :
    clampTo table.width (pose.x.toInt + n * pose.facing.dx.toInt) =
        pose.x.toInt + k * pose.facing.dx.toInt ∧
      clampTo table.height (pose.y.toInt + n * pose.facing.dy.toInt) =
        pose.y.toInt + k * pose.facing.dy.toInt := by
  have hbounds := on_iff.1 h
  subst hk
  cases hfacing : pose.facing <;>
    simp only [Table.roomAhead, clampTo, hfacing, Direction.dx, Direction.dy, Int64.reduceToInt] <;>
    omega

/-- As far as one step beyond the edge, coordinates are exact sums. -/
theorem Pose.On.toInt_iterate_ahead (h : pose.On table) (hk : k ≤ table.roomAhead pose + 1) :
    (Pose.ahead^[k] pose).x.toInt = pose.x.toInt + k * pose.facing.dx.toInt ∧
      (Pose.ahead^[k] pose).y.toInt = pose.y.toInt + k * pose.facing.dy.toInt := by
  induction k with
  | zero => simp
  | succ k ih =>
    obtain ⟨hx, hy⟩ := ih (by omega)
    have hon : (Pose.ahead^[k] pose).On table := by
      rw [on_iff, hx, hy]
      exact h.le_roomAhead_iff.1 (by omega)
    have hx' := hon.aheadFits.toInt_x
    have hy' := hon.aheadFits.toInt_y
    rw [facing_iterate_ahead] at hx' hy'
    rw [Function.iterate_succ_apply', hx', hy', hx, hy, Int.natCast_add, Int.natCast_one,
      Int.add_mul, Int.add_mul, Int.one_mul, Int.one_mul, Int.add_assoc, Int.add_assoc]
    exact ⟨rfl, rfl⟩

/-- The steps that stay on the table are those up to its edge. -/
theorem Pose.On.iterate_ahead_iff (h : pose.On table) (hk : k ≤ table.roomAhead pose + 1) :
    (Pose.ahead^[k] pose).On table ↔ k ≤ table.roomAhead pose := by
  obtain ⟨hx, hy⟩ := h.toInt_iterate_ahead hk
  rw [on_iff, hx, hy, h.le_roomAhead_iff]

private theorem Robot.obey_move (table : Table) (pose : Pose) :
    (Robot.mk table (some pose)).obey .move =
      if table.Contains pose.ahead.x pose.ahead.y then .ok ⟨table, some pose.ahead⟩
      else .error (.movedOff pose) :=
  rfl

private theorem Robot.followAll_move_of_on (h : ∀ i < k, (Pose.ahead^[i + 1] pose).On table) :
    (Robot.mk table (some pose)).followAll (List.replicate k .move) =
      (List.replicate k true, ⟨table, some (Pose.ahead^[k] pose)⟩) := by
  induction k generalizing pose with
  | zero => rfl
  | succ k ih =>
    have hobey : (Robot.mk table (some pose)).obey .move = .ok ⟨table, some pose.ahead⟩ := by
      rw [obey_move, if_pos]
      exact h 0 (Nat.succ_pos k)
    exact followAll_cons_of_ok hobey (ih fun i hi => h (i + 1) (Nat.succ_lt_succ hi))

private theorem Robot.followAll_move_of_not_on (h : ¬ pose.ahead.On table) (n : Nat) :
    (Robot.mk table (some pose)).followAll (List.replicate n .move) =
      (List.replicate n false, ⟨table, some pose⟩) := by
  induction n with
  | zero => rfl
  | succ n ih =>
    have hobey : (Robot.mk table (some pose)).obey .move = .error (.movedOff pose) := by
      rw [obey_move, if_neg]
      exact h
    exact followAll_cons_of_error hobey ih

/-- The moves that there is room for are followed, and those behind them are not. -/
theorem Robot.followAll_walk {j : Nat} (h : pose.On table) (hk : k ≤ table.roomAhead pose)
    (hj : 0 < j → k = table.roomAhead pose) :
    (Robot.mk table (some pose)).followAll (List.replicate (k + j) .move) =
      (List.replicate k true ++ List.replicate j false, ⟨table, some (Pose.ahead^[k] pose)⟩) := by
  have hwalk := Robot.followAll_move_of_on (k := k) fun i hi =>
    (h.iterate_ahead_iff (k := i + 1) (by omega)).2 (by omega)
  have hstay : (Robot.mk table (some (Pose.ahead^[k] pose))).followAll (List.replicate j .move) =
      (List.replicate j false, ⟨table, some (Pose.ahead^[k] pose)⟩) := by
    cases j with
    | zero => rfl
    | succ j =>
      refine Robot.followAll_move_of_not_on ?_ _
      have hedge := (h.iterate_ahead_iff (k := k + 1) (by omega)).not.2 (by
        rw [hj (Nat.succ_pos j)]
        omega)
      rwa [Function.iterate_succ_apply'] at hedge
  rw [← List.replicate_append_replicate]
  exact Robot.followAll_append hwalk hstay

/-- Two turns, the same number of moves and two turns lead back. -/
theorem Robot.followAll_back (h : pose.On table) (hk : k ≤ table.roomAhead pose) :
    (Robot.mk table (some (Pose.ahead^[k] pose))).followAll
        ([.right, .right] ++ List.replicate k .move ++ [.right, .right]) =
      (List.replicate (k + 4) true, ⟨table, some pose⟩) := by
  -- The squares on the way back are those of the way there, from the last to the first.
  have hon : ∀ i < k, (Pose.ahead^[i + 1] (Pose.ahead^[k] pose).reversed).On table := by
    intro i hi
    obtain ⟨j, rfl⟩ := Nat.exists_eq_add_of_lt hi
    rw [Nat.add_right_comm, Function.iterate_add_apply _ (i + 1), Pose.iterate_ahead_reversed]
    exact (h.iterate_ahead_iff (k := j) (by omega)).2 (by omega)
  have hturn : ∀ pose : Pose, (Robot.mk table (some pose)).followAll [.right, .right] =
      ([true, true], ⟨table, some pose.reversed⟩) := fun _ => rfl
  have hmoves := Robot.followAll_move_of_on hon
  rw [Pose.iterate_ahead_reversed] at hmoves
  have hlast := hturn pose.reversed
  rw [Pose.reversed_reversed] at hlast
  have hflags : [true, true] ++ List.replicate k true ++ [true, true] =
      List.replicate (k + 4) true := by
    have htwo : [true, true] = List.replicate 2 true := rfl
    rw [htwo, List.replicate_append_replicate, List.replicate_append_replicate]
    congr 1
    omega
  rw [← hflags]
  exact Robot.followAll_append (Robot.followAll_append (hturn _) hmoves) hlast

/-- A robot that is told `n` times to move walks straight on and stops at the edge of the table. It
follows the first orders, as many as it then is squares away from where it stood. Two turns, as many
moves and two turns take it back. -/
theorem walk_saturates {robot : Robot} (hpose : robot.pose = some pose)
    (hon : robot.table.Contains pose.x pose.y) (n : Nat) :
    ∃ there : Pose, there.facing = pose.facing ∧
      there.x.toInt = clampTo robot.table.width (pose.x.toInt + n * pose.facing.dx.toInt) ∧
      there.y.toInt = clampTo robot.table.height (pose.y.toInt + n * pose.facing.dy.toInt) ∧
      let k := (there.x.toInt - pose.x.toInt).natAbs + (there.y.toInt - pose.y.toInt).natAbs
      k ≤ n ∧
      robot.followAll (List.replicate n .move) =
        (List.replicate k true ++ List.replicate (n - k) false,
          { robot with pose := some there }) ∧
      Robot.followAll { robot with pose := some there }
          ([.right, .right] ++ List.replicate k .move ++ [.right, .right]) =
        (List.replicate (k + 4) true, robot) := by
  obtain ⟨table, _⟩ := robot
  obtain rfl : _ = some pose := hpose
  obtain ⟨k, hk⟩ : ∃ k, k = min n (table.roomAhead pose) := ⟨_, rfl⟩
  have hroom : k ≤ table.roomAhead pose := by omega
  obtain ⟨hx, hy⟩ := Pose.On.toInt_iterate_ahead hon (Nat.le_succ_of_le hroom)
  obtain ⟨hx', hy'⟩ := Pose.On.clampTo_eq hon hk
  have hdistance : ((Pose.ahead^[k] pose).x.toInt - pose.x.toInt).natAbs +
      ((Pose.ahead^[k] pose).y.toInt - pose.y.toInt).natAbs = k := by
    have hsteps := pose.facing.distance k
    omega
  refine ⟨Pose.ahead^[k] pose, pose.facing_iterate_ahead k, hx.trans hx'.symm, hy.trans hy'.symm,
    ?_⟩
  dsimp only
  rw [hdistance]
  have hedge : 0 < n - k → k = table.roomAhead pose := by omega
  have hwalk := Robot.followAll_walk hon hroom hedge
  have hn : k ≤ n := by omega
  rw [Nat.add_sub_cancel' hn] at hwalk
  exact ⟨hn, hwalk, Robot.followAll_back hon hroom⟩

/-- A table as wide as 64 bits allow, and a robot two squares away from its east edge. -/
theorem walk_saturates_widest :
    let table : Table := ⟨9223372036854775807, 4⟩
    let robot : Robot := ⟨table, some ⟨9223372036854775804, 3, .east⟩⟩
    ∃ there : Pose, there.facing = .east ∧ there.x.toInt = 9223372036854775806 ∧
      there.y.toInt = 3 ∧
      robot.followAll (List.replicate 5 .move) =
        ([true, true, false, false, false], ⟨table, some there⟩) ∧
      Robot.followAll ⟨table, some there⟩ [.right, .right, .move, .move, .right, .right] =
        (List.replicate 6 true, robot) := by
  intro table robot
  have hon : table.Contains 9223372036854775804 3 := by decide
  obtain ⟨there, hfacing, hx, hy, hwalk⟩ := @walk_saturates _ robot rfl hon 5
  have hx' : there.x.toInt = 9223372036854775806 := hx
  have hy' : there.y.toInt = 3 := hy
  rw [hx', hy'] at hwalk
  exact ⟨there, hfacing, hx', hy', hwalk.2⟩

end Walking

end Tabletop
