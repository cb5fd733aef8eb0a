import Riverhog.Core.Paging

/-!
# Keyset pagination

`keyset_statement` and `bounded_page` of `riverhog_core.browse`. A statement is the
`WHERE` condition under the three-valued logic of SQL, an `ORDER BY` over nullable
columns and a `LIMIT`; a column is a function from rows to values, with `none` for
`NULL`. The continuation condition is a disjunction over the columns; it holds of a row
exactly when the row comes after the position in the order (`afterPosition_iff`).
-/

namespace Riverhog.Browse

open Core List

/-! ## Three-valued logic -/

/-- A truth value of SQL; `none` is unknown. -/
abbrev Truth := Option Bool

/-- `AND`. -/
def Truth.and : Truth → Truth → Truth
  | some false, _ => some false
  | _, some false => some false
  | some true, some true => some true
  | _, _ => none

/-- `OR`. -/
def Truth.or : Truth → Truth → Truth
  | some true, _ => some true
  | _, some true => some true
  | some false, some false => some false
  | _, _ => none

/-- `and_(*conditions)`. -/
def allOf (conditions : List Truth) : Truth := conditions.foldr Truth.and (some true)

/-- `or_(*conditions)` of at least one condition. -/
def anyOf (conditions : List Truth) : Truth := conditions.foldr Truth.or (some false)

variable {conditions : List Truth} {a b : Truth}

theorem Truth.and_eq_true : a.and b = some true ↔ a = some true ∧ b = some true := by
  rcases a with _ | _ | _ <;> rcases b with _ | _ | _ <;> simp [Truth.and]

theorem Truth.or_eq_true : a.or b = some true ↔ a = some true ∨ b = some true := by
  rcases a with _ | _ | _ <;> rcases b with _ | _ | _ <;> simp [Truth.or]

theorem allOf_eq_true : allOf conditions = some true ↔ ∀ c ∈ conditions, c = some true := by
  induction conditions with
  | nil => simp [allOf]
  | cons c rest ih =>
    rw [forall_mem_cons, ← ih, ← Truth.and_eq_true]
    rfl

theorem anyOf_eq_true : anyOf conditions = some true ↔ ∃ c ∈ conditions, c = some true := by
  induction conditions with
  | nil => simp [anyOf]
  | cons c rest ih =>
    rw [exists_mem_cons_iff, ← ih, ← Truth.or_eq_true]
    rfl

/-! ## The statement -/

/-- `asc` or `desc`, for all columns of an ordering. -/
inductive Direction where
  | asc | desc
  deriving DecidableEq

/-- The exceptions of the traversal. -/
inductive BrowseError where
  | badRequest (message : String)
  | valueError (message : String)
  /-- Not an exception: the traversal did not end within its bound. -/
  | diverges
  deriving DecidableEq

section Statement

variable {ρ κ : Type} [LinearOrder κ]

/-- A nullable value among the others: `NULLS LAST` of an ascending order. -/
def nullsLast : Option κ → WithTop κ
  | none => ⊤
  | some v => v

/-- `ORDER BY`: every column ascending with nulls last, or every column descending with nulls
first. -/
def orderBy (direction : Direction) (columns : List (ρ → Option κ)) (rows : List ρ) : List ρ :=
  match direction with
  | .asc => sortedBy (fun r => columns.map fun c => nullsLast (c r)) rows
  | .desc => sortedBy (fun r => columns.map fun c => OrderDual.toDual (nullsLast (c r))) rows

/-- The part of a `Select` that the traversal sets. -/
structure Select (ρ κ : Type) where
  keep : Option (ρ → Truth)
  direction : Direction
  columns : List (ρ → Option κ)
  limit : Nat

/-- The rows of a table that a statement returns. -/
def Select.run (s : Select ρ κ) (rows : List ρ) : List ρ :=
  (orderBy s.direction s.columns (rows.filter fun r => s.keep.all fun c => c r == some true)).take
    s.limit

/-- `column.is_(None)` or `column == value`. -/
def sameValue (value column : Option κ) : Truth :=
  match value with
  | none => some column.isNone
  | some v => column.map fun x => decide (x = v)

/-- What comes after `value` in its column; no condition where nothing can. -/
def comparisonOf (direction : Direction) (value : Option κ) : Option (Option κ → Truth) :=
  match value, direction with
  | none, .desc => some fun column => some column.isSome
  | none, .asc => none
  | some v, .asc => some fun column =>
    Truth.or (column.map fun x => decide (x > v)) (some column.isNone)
  | some v, .desc => some fun column => column.map fun x => decide (x < v)

/-- The loop that builds `comparisons`, after the conditions on the preceding columns. -/
def comparisons (direction : Direction) :
    List (ρ → Truth) → List ((ρ → Option κ) × Option κ) → List (ρ → Truth)
  | _, [] => []
  | preceding, (column, value) :: rest =>
    ((comparisonOf direction value).toList.map fun comparison r =>
      allOf ((preceding.map fun c => c r) ++ [comparison (column r)])) ++
    comparisons direction (preceding ++ [fun r => sameValue value (column r)]) rest

/-- The condition that a position adds; without comparisons there is none. -/
def afterPosition (direction : Direction) (columns : List (ρ → Option κ))
    (position : List (Option κ)) : Option (ρ → Truth) :=
  match comparisons direction [] (columns.zip position) with
  | [] => none
  | conditions => some fun r => anyOf (conditions.map fun c => c r)

/-- `validate_page_size`. -/
def validatePageSize (pageSize : Int) : Except BrowseError Unit :=
  require (!(pageSize < 1 || pageSize > 100)) (.badRequest "page_size must be between 1 and 100")

/-- The direction that `order` names. -/
def directionOf (order : String) : Except BrowseError Direction :=
  if order = "asc" then .ok .asc
  else if order = "desc" then .ok .desc
  else .error (.badRequest "order must be asc or desc")

/-- The condition of an optional position. -/
def positionCondition (direction : Direction) (columns : List (ρ → Option κ))
    (position : Option (List (Option κ))) : Except BrowseError (Option (ρ → Truth)) :=
  match position with
  | none => .ok none
  | some values => do
    require (values.length == columns.length)
      (.badRequest "page token position differs from the operation ordering")
    return afterPosition direction columns values

section

variable (columns : List (ρ → Option κ))

/-- `keyset_statement`. -/
def keysetStatement (position : Option (List (Option κ)))
    (order : String) (pageSize : Int) : Except BrowseError (Select ρ κ) := do
  validatePageSize pageSize
  let direction ← directionOf order
  require (!columns.isEmpty) (.valueError "keyset traversal requires at least one ordering column")
  let keep ← positionCondition direction columns position
  return ⟨keep, direction, columns, (pageSize + 1).toNat⟩

/-- The values of a row in the ordering columns. -/
def positionOf (r : ρ) : List (Option κ) := columns.map fun c => c r

/-- `bounded_page`. -/
def boundedPage (rows : List ρ) (pageSize : Int) :
    Except BrowseError (List ρ × Option (List (Option κ))) := do
  validatePageSize pageSize
  let page := rows.take pageSize.toNat
  let nextPosition := if rows.length > pageSize then page.getLast?.map (positionOf columns) else none
  return (page, nextPosition)

end

/-- Follow the returned positions, from one position on, and gather the rows of all pages. -/
def follow (columns : List (ρ → Option κ)) (rows : List ρ) (order : String) (pageSize : Int) :
    Nat → Option (List (Option κ)) → Except BrowseError (List ρ)
  | 0, _ => .error .diverges
  | fuel + 1, position => do
    let statement ← keysetStatement columns position order pageSize
    let (page, next) ← boundedPage columns (statement.run rows) pageSize
    match next with
    | none => return page
    | some position =>
      let rest ← follow columns rows order pageSize fuel (some position)
      return page ++ rest

end Statement

/-! ## The order of the rows -/

section Order

variable {ρ κ ω : Type} [LinearOrder κ] [LinearOrder ω] {direction : Direction}
  {rank : Option κ → ω} {columns : List (ρ → Option κ)}

/-- The ranks of a row in the ordering columns. -/
def rowKey (rank : Option κ → ω) (columns : List (ρ → Option κ)) (r : ρ) : List ω :=
  columns.map fun c => rank (c r)

/-- A rank of nullable values that agrees with a direction. -/
structure Ranks (ρ : Type) (direction : Direction) (rank : Option κ → ω) : Prop where
  injective : Function.Injective rank
  order : ∀ (columns : List (ρ → Option κ)) (rows : List ρ),
    orderBy direction columns rows = sortedBy (rowKey rank columns) rows
  after : ∀ value x, rank value < rank x ↔
    ∃ c, comparisonOf direction value = some c ∧ c x = some true

theorem ranks_asc : Ranks ρ .asc (nullsLast : Option κ → WithTop κ) where
  injective := by
    rintro (_ | a) (_ | b) h
    · rfl
    · exact absurd h.symm (WithTop.coe_ne_top)
    · exact absurd h (WithTop.coe_ne_top)
    · rw [WithTop.coe_inj.1 h]
  order := fun _ _ => rfl
  after := by
    rintro (_ | a) (_ | b) <;> simp [comparisonOf, nullsLast, Truth.or_eq_true]

theorem ranks_desc :
    Ranks ρ .desc fun value : Option κ => OrderDual.toDual (nullsLast value) where
  injective := fun _ _ h => (ranks_asc (ρ := ρ)).injective (OrderDual.toDual.injective h)
  order := fun _ _ => rfl
  after := by
    intro value x
    rw [OrderDual.toDual_lt_toDual]
    rcases value with _ | a <;> rcases x with _ | b <;> simp [comparisonOf, nullsLast]

theorem sameValue_eq_true {value column : Option κ} :
    sameValue value column = some true ↔ column = value := by
  cases value <;> cases column <;> simp [sameValue]

variable {position : List (Option κ)} {preceding : List (ρ → Truth)} {v : κ}

/-- One of the comparisons holds exactly when the preceding conditions do and the row comes after the
position. -/
theorem comparisons_iff (hr : Ranks ρ direction rank) (hlen : position.length = columns.length)
    {r : ρ} : (∃ c ∈ comparisons direction preceding (columns.zip position), c r = some true) ↔
      (∀ c ∈ preceding, c r = some true) ∧ position.map rank < rowKey rank columns r := by
  induction columns generalizing preceding position with
  | nil =>
    obtain rfl : position = [] := length_eq_zero_iff.1 hlen
    simp [comparisons, rowKey]
  | cons column columns ih =>
    obtain ⟨value, position, rfl⟩ := exists_cons_of_length_eq_add_one hlen
    have hrest : (∃ c ∈ comparisons direction (preceding ++ [fun r => sameValue value (column r)])
        (columns.zip position), c r = some true) ↔
        ((∀ c ∈ preceding, c r = some true) ∧ column r = value) ∧
          position.map rank < rowKey rank columns r := by
      rw [ih (Nat.succ.inj hlen), forall_mem_append, forall_mem_singleton, sameValue_eq_true]
    have hhere : (∃ c ∈ (comparisonOf direction value).toList.map fun comparison r =>
        allOf ((preceding.map fun c => c r) ++ [comparison (column r)]), c r = some true) ↔
        (∀ c ∈ preceding, c r = some true) ∧ rank value < rank (column r) := by
      rw [hr.after]
      cases comparisonOf direction value with
      | none => simp
      | some comparison => simp [allOf_eq_true, or_imp, forall_and]
    rw [zip_cons_cons, comparisons, rowKey, map_cons, map_cons,
      cons_lt_cons_iff, ← rowKey, hr.injective.eq_iff]
    simp only [mem_append, or_and_right, exists_or, hhere, hrest]
    rw [and_or_left, and_assoc, eq_comm]

/-- A value that is not null adds a comparison. -/
theorem comparisons_ne_nil (hlen : position.length = columns.length) (hv : some v ∈ position) :
    comparisons direction preceding (columns.zip position) ≠ [] := by
  induction columns generalizing preceding position with
  | nil =>
    obtain rfl : position = [] := length_eq_zero_iff.1 hlen
    cases hv
  | cons column columns ih =>
    obtain ⟨value, position, rfl⟩ := exists_cons_of_length_eq_add_one hlen
    rw [zip_cons_cons, comparisons]
    rcases mem_cons.1 hv with rfl | hv
    · cases direction <;> simp [comparisonOf]
    · exact append_ne_nil_of_right_ne_nil _ (ih (Nat.succ.inj hlen) hv)

/-- The condition of a position keeps exactly the rows that come after it. -/
theorem afterPosition_iff (hr : Ranks ρ direction rank) (hlen : position.length = columns.length)
    (hv : some v ∈ position) (r : ρ) :
    ((afterPosition direction columns position).all fun c => c r == some true) = true ↔
      position.map rank < rowKey rank columns r := by
  have hiff : (∃ c ∈ comparisons direction [] (columns.zip position), c r = some true) ↔
      position.map rank < rowKey rank columns r := by
    rw [comparisons_iff hr hlen]
    exact and_iff_right (forall_mem_nil _)
  rw [afterPosition]
  cases hc : comparisons direction [] (columns.zip position) with
  | nil => exact absurd hc (comparisons_ne_nil hlen hv)
  | cons c rest =>
    rw [hc] at hiff
    rw [Option.all_some, beq_iff_eq, anyOf_eq_true, ← hiff]
    simp only [mem_map, exists_exists_and_eq_and]

end Order

/-! ## The traversal -/

section Traversal

variable {ρ κ ω : Type} [LinearOrder κ] [LinearOrder ω] {direction : Direction}
  {rank : Option κ → ω} {columns : List (ρ → Option κ)} {rows : List ρ} {order : String}
  {pageSize : Nat}

/-- Selecting rows of a table with distinct keys commutes with sorting it. -/
theorem sortedBy_filter {key : ρ → ω} (hn : (rows.map key).Nodup) (keep : ρ → Bool) :
    sortedBy key (rows.filter keep) = (sortedBy key rows).filter keep := by
  have hp : (rows.filter keep).Perm ((sortedBy key rows).filter keep) :=
    (sortedBy_perm key rows).symm.filter keep
  have hn' : ((rows.filter keep).map key).Nodup := hn.sublist (filter_sublist.map key)
  rw [sortedBy_eq_of_perm key hn' hp, sortedBy_eq_self_iff]
  exact (pairwise_sortedBy key rows).sublist filter_sublist

theorem validatePageSize_ok (h₁ : 1 ≤ pageSize) (h₂ : pageSize ≤ 100) :
    validatePageSize pageSize = .ok () := by
  have hlow : ¬ ((pageSize : Int) < 1) := by omega
  have hhigh : ¬ ((pageSize : Int) > 100) := by omega
  simp [validatePageSize, hlow, hhigh]

variable {read rest : List ρ}

/-- One query: the next rows in the order, after those that were read. -/
theorem run_statement (hr : Ranks ρ direction rank) (horder : directionOf order = .ok direction)
    (hcols : columns ≠ []) (h₁ : 1 ≤ pageSize) (h₂ : pageSize ≤ 100)
    (hn : (rows.map (rowKey rank columns)).Nodup)
    (hlast : ∀ r ∈ rows, ∃ v, some v ∈ positionOf columns r)
    (hs : sortedBy (rowKey rank columns) rows = read ++ rest) :
    ∃ statement, keysetStatement columns (read.getLast?.map (positionOf columns)) order pageSize =
      .ok statement ∧ statement.run rows = rest.take (pageSize + 1) := by
  have hlimit : ((pageSize : Int) + 1).toNat = pageSize + 1 := by omega
  have hcols' : (!columns.isEmpty) = true := by simpa using hcols
  have hlt := pairwise_lt_sortedBy (rowKey rank columns) hn
  rw [hs] at hlt
  have hfilter := filter_after hlt
  rw [keysetStatement, validatePageSize_ok h₁ h₂, horder]
  simp only [ok_bind, hcols', require_true, hlimit]
  cases hl : read.getLast? with
  | none =>
    refine ⟨_, rfl, ?_⟩
    obtain rfl := getLast?_eq_none_iff.1 hl
    have hall : (rows.filter fun _ => true) = rows := filter_true rows
    simp only [Select.run, Option.all_none, hall, hr.order, hs, nil_append]
  | some last =>
    have hlen : (positionOf columns last).length = columns.length := length_map _
    have hmem : last ∈ rows := by
      rw [← (sortedBy_perm (rowKey rank columns) rows).mem_iff, hs]
      exact mem_append_left _ (mem_of_getLast? hl)
    obtain ⟨v, hv⟩ := hlast last hmem
    have hcond : positionCondition direction columns (some (positionOf columns last)) =
        .ok (afterPosition direction columns (positionOf columns last)) := by
      simp [positionCondition, hlen, pure, Except.pure]
    have hkey : (positionOf columns last).map rank = rowKey rank columns last := by
      rw [positionOf, map_map, rowKey]
      rfl
    simp only [lastKey, hl, Option.map_some, Option.all_some] at hfilter
    rw [Option.map_some, hcond]
    refine ⟨_, rfl, ?_⟩
    simp only [Select.run, hr.order, sortedBy_filter hn, hs]
    refine congrArg _ ((filter_congr fun r _ => ?_).trans hfilter)
    rw [Bool.eq_iff_iff, afterPosition_iff hr hlen hv, hkey]
    simp

omit [LinearOrder κ] in
/-- A page of the rows that are left, and the position of its last row if there are more. -/
theorem boundedPage_take (h₁ : 1 ≤ pageSize) (h₂ : pageSize ≤ 100) (rest : List ρ) :
    boundedPage columns (rest.take (pageSize + 1)) pageSize =
      .ok (rest.take pageSize, if pageSize < rest.length
        then (rest.take pageSize).getLast?.map (positionOf columns) else none) := by
  have htake : (rest.take (pageSize + 1)).take (pageSize : Int).toNat = rest.take pageSize := by
    rw [Int.toNat_natCast, take_take, Nat.min_eq_left (Nat.le_succ _)]
  have hmore : ((rest.take (pageSize + 1)).length : Int) > pageSize ↔ pageSize < rest.length := by
    rw [length_take]
    omega
  rw [boundedPage, validatePageSize_ok h₁ h₂, ok_bind]
  simp only [htake, hmore]
  rfl

/-- From any point of the traversal, the rest of the rows is visited. -/
theorem follow_of_read (hr : Ranks ρ direction rank) (horder : directionOf order = .ok direction)
    (hcols : columns ≠ []) (h₁ : 1 ≤ pageSize) (h₂ : pageSize ≤ 100)
    (hn : (rows.map (rowKey rank columns)).Nodup)
    (hlast : ∀ r ∈ rows, ∃ v, some v ∈ positionOf columns r) {fuel : Nat}
    (hs : sortedBy (rowKey rank columns) rows = read ++ rest) (hf : rest.length < fuel) :
    follow columns rows order pageSize fuel (read.getLast?.map (positionOf columns)) =
      .ok rest := by
  induction fuel generalizing read rest with
  | zero => omega
  | succ fuel ih =>
    obtain ⟨statement, hstmt, hrun⟩ := run_statement hr horder hcols h₁ h₂ hn hlast hs
    rw [follow, hstmt, ok_bind, hrun, boundedPage_take h₁ h₂, ok_bind]
    by_cases hmore : pageSize < rest.length
    · have hne : rest.take pageSize ≠ [] := by
        intro h
        have := congrArg length h
        rw [length_take, length_nil] at this
        omega
      have hcut : sortedBy (rowKey rank columns) rows =
          (read ++ rest.take pageSize) ++ rest.drop pageSize := by
        rw [append_assoc, take_append_drop, hs]
      have hrest := ih hcut (by rw [length_drop]; omega)
      rw [getLast?_append, getLast?_eq_some_getLast hne, Option.some_or, Option.map_some] at hrest
      simp only [if_pos hmore, getLast?_eq_some_getLast hne, Option.map_some, hrest, ok_bind,
        take_append_drop]
      rfl
    · simp only [if_neg hmore, take_of_length_le (le_of_not_gt hmore)]
      rfl

end Traversal

section Result

variable {ρ κ : Type} [LinearOrder κ]

/-- A row stands before another one in an order: at the first column where they differ, its value is
smaller (larger in a descending order), where null is larger than every value. -/
def Precedes (direction : Direction) (columns : List (ρ → Option κ)) (r r' : ρ) : Prop :=
  match direction with
  | .asc => rowKey nullsLast columns r < rowKey nullsLast columns r'
  | .desc => rowKey (fun v => OrderDual.toDual (nullsLast v)) columns r <
      rowKey (fun v => OrderDual.toDual (nullsLast v)) columns r'

end Result

end Riverhog.Browse
