import Mathlib.Order.Compare
import Subplans.Proofs.Condition.Meaning

/-!
Dates that are compared with timestamps.

A timestamp that a column of dates is compared with is cut down to its date. For most days this says what the timestamp
says of the start of the day. For the day of the timestamp itself it does so only if the timestamp is the start of the
day, or if the operator asks no more than whether a day is later (`formula?_timestamp`).
-/

namespace Subplans

open Std

def Date.order : Date → Date → Ordering :=
  compareLex (compareOn Date.year) (compareLex (compareOn Date.month) (compareOn Date.day))

def Timestamp.order : Timestamp → Timestamp → Ordering :=
  compareLex (fun t u => t.date.order u.date)
    (compareLex (compareOn Timestamp.hour) (compareLex (compareOn Timestamp.minute) (compareOn Timestamp.second)))

-- The start of a day.
def Date.midnight (d : Date) : Timestamp where
  date := d
  hour := 0
  minute := 0
  second := 0
  isTime := rfl

variable {d e : Date} {t u : Timestamp}

instance : OrientedCmp Date.order :=
  inferInstanceAs (OrientedCmp (compareLex _ _))

theorem Date.order_swap : e.order d = (d.order e).swap :=
  OrientedCmp.eq_swap

instance : OrientedCmp (fun t u : Timestamp => t.date.order u.date) where
  eq_swap := Date.order_swap

instance : OrientedCmp Timestamp.order :=
  inferInstanceAs (OrientedCmp (compareLex _ _))

theorem Timestamp.order_swap : u.order t = (t.order u).swap :=
  OrientedCmp.eq_swap

theorem Date.order_eq : d.order e = .eq ↔ d = e := by
  obtain ⟨year, month, day, _⟩ := d
  obtain ⟨year', month', day', _⟩ := e
  simp [Date.order, compareLex, compareOn, Ordering.then_eq_eq]

theorem Timestamp.eq_midnight : t = t.date.midnight ↔ t.hour = 0 ∧ t.minute = 0 ∧ t.second = 0 := by
  obtain ⟨date, hour, minute, second, _⟩ := t
  constructor
  case mp =>
    intro h
    cases h
    exact ⟨rfl, rfl, rfl⟩
  case mpr =>
    rintro ⟨rfl, rfl, rfl⟩
    rfl

theorem compare_zero {n : Nat} : compare 0 n = if n = 0 then .eq else .lt := by
  cases n <;> rfl

-- A day starts before every later time on it.
theorem order_midnight : d.midnight.order t = (d.order t.date).then (if t = t.date.midnight then .eq else .lt) := by
  have htime : d.midnight.order t =
    (d.order t.date).then ((compare 0 t.hour).then ((compare 0 t.minute).then (compare 0 t.second))) := rfl
  rw [htime, compare_zero, compare_zero, compare_zero]
  simp only [Timestamp.eq_midnight]
  congr 1
  by_cases hhour : t.hour = 0 <;> by_cases hminute : t.minute = 0 <;> by_cases hsecond : t.second = 0 <;>
    simp [hhour, hminute, hsecond]

-- Dates and timestamps are compared by time.
structure Collation.Chronological (k : Collation) : Prop where
  date      : ∀ d e, k.order (.date d) (.date e) = d.order e
  timestamp : ∀ t u, k.order (.timestamp t) (.timestamp u) = t.order u

namespace Scope

open Condition (Term)

variable {s : Scope} {k : Collation} {column : ColumnRef} {term : Term} {symbol text : String} {columnFirst : Bool}

-- The operators of equality and order.
def orderSymbols : List String :=
  ["=", "<>", "<", "<=", ">", ">="]

def stamp (text : String) : Term :=
  ⟨.literal text, some "timestamp without time zone"⟩

-- A term and a timestamp with an operator between them, the term before it or behind it.
def against (columnFirst : Bool) (term : Term) (symbol text : String) : Condition :=
  if columnFirst then .compare term symbol (stamp text) else .compare (stamp text) symbol term

-- What is said of two sides in this order or in the other.
def between (columnFirst : Bool) (relation : Value → Value → Truth) (x y : Value) : Truth :=
  if columnFirst then relation x y else relation y x

-- The operators that ask no more than whether the column is later.
def indifferent (columnFirst : Bool) : List String :=
  if columnFirst then [">", "<="] else ["<", ">="]

theorem value?_stamp (htype : s.schema.dataType column = .date) :
    s.value? column (stamp text) = (Timestamp.ofText? text.toList).map fun t => .date t.date := by
  simp [value?, stamp, literal?, htype]

theorem supports_orderSymbols :
    ∀ symbol ∈ orderSymbols, ∃ p ∈ Comparison.ofSymbol? symbol, DataType.date.supports p.1 = true := by
  decide

theorem exists_compare (hsymbol : symbol ∈ orderSymbols) (htype : s.schema.dataType column = .date)
    (ht : Timestamp.ofText? text.toList = some t) : ∃ f, formula?.compare? s column symbol (stamp text) = some f := by
  obtain ⟨⟨comparison, positive⟩, hcomparison, hsupports⟩ := supports_orderSymbols symbol hsymbol
  have hvalue : s.value? column (stamp text) = some (.date t.date) := by rw [value?_stamp htype, ht]; rfl
  have hon : ColumnPredicate.on s.schema column comparison (.date t.date) positive =
      .ok ⟨column, s.schema.columnName column, s.schema.dataType column, comparison, .date t.date, positive⟩ :=
    if_pos (htype ▸ hsupports)
  rw [formula?.compare?, hcomparison, hvalue, Option.bind_eq_bind, Option.bind_some]
  simp only [Option.bind_eq_bind, Option.bind_some, predicate?, hon]
  exact ⟨_, rfl⟩

theorem compare?_eq_none (htype : s.schema.dataType column = .date) (ht : Timestamp.ofText? text.toList = none) :
    formula?.compare? s column symbol (stamp text) = none := by
  have hvalue : s.value? column (stamp text) = none := by rw [value?_stamp htype, ht]; rfl
  rw [formula?.compare?, hvalue]
  cases Comparison.ofSymbol? symbol <;> rfl

theorem column?_stamp : s.column? (stamp text) = none :=
  rfl

theorem formula?_against (hcolumn : s.column? term = some column) : s.formula? (against columnFirst term symbol text) =
    if columnFirst then formula?.compare? s column symbol (stamp text)
    else (Comparison.flip? symbol).bind fun symbol => formula?.compare? s column symbol (stamp text) := by
  cases columnFirst <;> simp [against, formula?, hcolumn, column?_stamp]

theorem exists_against (hcolumn : s.column? term = some column) (hsymbol : symbol ∈ orderSymbols)
    (htype : s.schema.dataType column = .date) (ht : Timestamp.ofText? text.toList = some t) :
    ∃ f, s.formula? (against columnFirst term symbol text) = some f := by
  have hflip : ∀ symbol ∈ orderSymbols, ∃ flipped ∈ orderSymbols, Comparison.flip? symbol = some flipped := by
    simp [orderSymbols, Comparison.flip?]
  rw [formula?_against hcolumn]
  cases columnFirst
  case true => exact exists_compare hsymbol htype ht
  case false =>
    obtain ⟨flipped, hflipped, hflip⟩ := hflip symbol hsymbol
    rw [hflip]
    exact exists_compare hflipped htype ht

-- The formula says of a row what the operator says of the two dates.
theorem value_against {relation : Value → Value → Truth} {f : Formula} {row : Row} {other : String → Truth}
    (hcolumn : s.column? term = some column) (htype : s.schema.dataType column = .date)
    (ht : Timestamp.ofText? text.toList = some t) (hrelation : k.operator? symbol = some relation)
    (h : s.formula? (against columnFirst term symbol text) = some f) :
    f.value (Atom.truth k row other) = between columnFirst relation (row column) (.date t.date) := by
  have hoperand : s.operand? k row column (stamp text) = some (.date t.date) :=
    operand?_of_value (by rw [value?_stamp htype, ht]; rfl)
  rw [formula?_against hcolumn] at h
  cases columnFirst
  case true =>
    obtain ⟨relation', x, hrelation', hx, htells⟩ := tells_compare k row other h
    cases hrelation.symm.trans hrelation'
    cases hoperand.symm.trans hx
    exact htells.value
  case false =>
    obtain ⟨flipped, hflip, h⟩ := Option.bind_eq_some_iff.mp h
    obtain ⟨relation', x, hrelation', hx, htells⟩ := tells_compare k row other h
    obtain ⟨_, _, hsymbol, hflipped, hswap⟩ := Collation.operator?_of_flip (k := k) hflip
    cases hrelation.symm.trans hsymbol
    cases hrelation'.symm.trans hflipped
    cases hoperand.symm.trans hx
    rw [htells.value, ← hswap]
    rfl

-- Only on the day of the timestamp it matters which time of the day this is.
theorem between_midnight {relation : Value → Value → Truth} (hk : k.Chronological) (hsymbol : symbol ∈ orderSymbols)
    (hrelation : k.operator? symbol = some relation) : between columnFirst relation (.date d) (.date t.date) =
      between columnFirst relation (.timestamp d.midnight) (.timestamp t) ↔
      d ≠ t.date ∨ t = t.date.midnight ∨ symbol ∈ indifferent columnFirst := by
  have hdate := hk.date d t.date
  have htime := (hk.timestamp d.midnight t).trans order_midnight
  have hdate' := (k.swap _ _).trans (congrArg Ordering.swap hdate)
  have htime' := (k.swap _ _).trans (congrArg Ordering.swap htime)
  rw [Ne, ← Date.order_eq]
  generalize d.order t.date = o at *
  simp only [orderSymbols, List.mem_cons, List.not_mem_nil, or_false] at hsymbol
  by_cases hmidnight : t = t.date.midnight
  case pos =>
    rw [if_pos hmidnight, Ordering.then_eq] at htime htime'
    refine iff_of_true ?_ (.inr (.inl hmidnight))
    rcases hsymbol with rfl | rfl | rfl | rfl | rfl | rfl
    all_goals
      cases hrelation
      cases columnFirst <;> simp [between, Collation.ask, Value.isNull, hdate, htime, hdate', htime']
  case neg =>
    rw [if_neg hmidnight] at htime htime'
    rcases hsymbol with rfl | rfl | rfl | rfl | rfl | rfl
    all_goals
      cases hrelation
      cases columnFirst <;> cases o <;>
        simp [between, indifferent, Collation.ask, Value.isNull, Truth.ofBool, hdate, htime, hdate', htime', hmidnight]

-- A column of dates is compared with the date of the timestamp, if the text is one. This differs from what the timestamp
-- says of the start of a day on its own day alone, unless it is the start of this or the operator asks for later days.
theorem formula?_timestamp (hk : k.Chronological) (hcolumn : s.column? term = some column)
    (htype : s.schema.dataType column = .date) (hsymbol : symbol ∈ orderSymbols) (columnFirst : Bool) (text : String) :
    ∃ relation, k.operator? symbol = some relation ∧
      (Timestamp.ofText? text.toList = none → s.formula? (against columnFirst term symbol text) = none) ∧
      ∀ t, Timestamp.ofText? text.toList = some t → ∃ f, s.formula? (against columnFirst term symbol text) = some f ∧
        ∀ (row : Row) (other : String → Truth) (d : Date), row column = .date d →
          f.value (Atom.truth k row other) = between columnFirst relation (.date d) (.date t.date) ∧
          (f.value (Atom.truth k row other) = between columnFirst relation (.timestamp d.midnight) (.timestamp t) ↔
            d ≠ t.date ∨ t = t.date.midnight ∨ symbol ∈ indifferent columnFirst) := by
  obtain ⟨⟨comparison, positive⟩, hcomparison, _⟩ := supports_orderSymbols symbol hsymbol
  refine ⟨_, Collation.operator?_of_symbol hcomparison, ?_, ?_⟩
  case refine_1 =>
    intro hnone
    rw [formula?_against hcolumn]
    cases columnFirst
    case true => exact compare?_eq_none htype hnone
    case false => exact Option.bind_eq_none_iff.mpr fun _ _ => compare?_eq_none htype hnone
  case refine_2 =>
    intro t ht
    obtain ⟨f, hf⟩ : ∃ f, s.formula? (against columnFirst term symbol text) = some f :=
      exists_against hcolumn hsymbol htype ht
    have hrelation := Collation.operator?_of_symbol (k := k) hcomparison
    refine ⟨f, hf, fun row other d hd => ?_⟩
    rw [value_against hcolumn htype ht hrelation hf, hd]
    exact ⟨rfl, between_midnight hk hsymbol hrelation⟩

-- Dates and timestamps by time, all else is equal, and nothing matches.
def byTime : Collation where
  order
    | .date d, .date e => d.order e
    | .timestamp t, .timestamp u => t.order u
    | _, _ => .eq
  swap x y := by
    cases x <;> cases y
    case date.date => exact Date.order_swap
    case timestamp.timestamp => exact Timestamp.order_swap
    all_goals rfl
  matching _ _ _ := false
  number? _ := none
  cast _ x := x

theorem chronological_byTime : byTime.Chronological where
  date _ _ := rfl
  timestamp _ _ := rfl

def born : Term :=
  ⟨.column "p.born", none⟩

def newYear : Date :=
  ⟨2001, 1, 1, rfl⟩

def noon : Timestamp :=
  ⟨newYear, 12, 0, 0, rfl⟩

-- Noon is later than the start of the day, but its date is not.
theorem formula?_timestamp_noon : byTime.Chronological ∧ people.column? born = some ⟨0, 2⟩ ∧
    people.schema.dataType ⟨0, 2⟩ = .date ∧ ">" ∈ orderSymbols ∧
    ∃ f, people.formula? (against false born ">" "2001-01-01 12:00:00") = some f ∧
      ∀ row other, row ⟨0, 2⟩ = .date newYear → f.value (Atom.truth byTime row other) = .fails ∧
        f.value (Atom.truth byTime row other) ≠ byTime.comparison .gt (.timestamp noon) (.timestamp newYear.midnight) := by
  have hcolumn : people.column? born = some ⟨0, 2⟩ := by decide +kernel
  have htype : people.schema.dataType ⟨0, 2⟩ = .date := by decide +kernel
  have hsymbol : ">" ∈ orderSymbols := by decide
  have ht : Timestamp.ofText? "2001-01-01 12:00:00".toList = some noon := by decide +kernel
  obtain ⟨relation, hrelation, -, htold⟩ :=
    formula?_timestamp chronological_byTime hcolumn htype hsymbol false "2001-01-01 12:00:00"
  obtain ⟨f, hf, hvalue⟩ := htold noon ht
  cases hrelation
  refine ⟨chronological_byTime, hcolumn, htype, hsymbol, f, hf, fun row other hrow => ?_⟩
  have ⟨hdate, htime⟩ := hvalue row other newYear hrow
  refine ⟨hdate, fun h => ?_⟩
  exact absurd (htime.mp h) (by decide)

theorem ofText?_noon : Condition.ofText? "(p.born < '2001-01-01 12:00:00'::timestamp without time zone)" =
    some (against true born "<" "2001-01-01 12:00:00") := by
  have htokens : Condition.tokens? "(p.born < '2001-01-01 12:00:00'::timestamp without time zone)" =
    some [.lparen, .word "p.born", .operator "<", .text "2001-01-01 12:00:00", .cast "timestamp without time zone",
      .rparen] := by decide +kernel
  have hcomparison : Condition.ComparisonOf
      ([.word "p.born"] ++ [.operator "<"] ++ ([.text "2001-01-01 12:00:00"] ++ [.cast "timestamp without time zone"]))
      (against true born "<" "2001-01-01 12:00:00") := .compare (.column (by decide)) .symbol (.cast .text)
  exact Condition.ofText?_of_derives htokens hcomparison.parenthesized.disjunction

-- What noon says of the start of its day is not what the condition says of the day.
theorem not_told_noon : ¬∀ f, people.parse? "(p.born < '2001-01-01 12:00:00'::timestamp without time zone)" = some f →
    ∀ row other d, row ⟨0, 2⟩ = .date d →
      (f.value (Atom.truth byTime row other) = .holds ↔ d.midnight.order noon = .lt) := by
  intro h
  have hcolumn : people.column? born = some ⟨0, 2⟩ := by decide +kernel
  have htype : people.schema.dataType ⟨0, 2⟩ = .date := by decide +kernel
  have ht : Timestamp.ofText? "2001-01-01 12:00:00".toList = some noon := by decide +kernel
  obtain ⟨f, hf⟩ : ∃ f, people.formula? (against true born "<" "2001-01-01 12:00:00") = some f :=
    exists_against hcolumn (by decide) htype ht
  have hparse : people.parse? "(p.born < '2001-01-01 12:00:00'::timestamp without time zone)" = some f := by
    rw [parse?, ofText?_noon, Option.bind_some, hf]
  have htold := h f hparse (fun _ => .date newYear) (fun _ => .unknown) newYear rfl
  have hvalue : f.value (Atom.truth byTime (fun _ => .date newYear) fun _ => .unknown) = .fails :=
    (value_against hcolumn htype ht rfl hf).trans (by decide)
  rw [hvalue] at htold
  cases htold.mpr (by decide)

end Scope

end Subplans
