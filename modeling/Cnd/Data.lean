import Cnd.Calendar
import Cnd.Decimal.Shortest
import Cnd.Numeral
import Cnd.Text.Quoted

/-!
Plain data: the values that a JSON or YAML document holds.

A mapping keeps its entries in order and has no two equal keys. Equality is that of the values:
numbers of either kind and the two truth values (as one and zero) are equal when they denote the
same number, moments when they are the same instant, mappings whatever their order.
-/

namespace Cnd

/-- A loaded value. -/
inductive Data where
  | null
  | bool (b : Bool)
  | int (n : Int)
  | float (x : Binary64)
  | text (s : String)
  | bytes (b : ByteArray)
  | date (d : CalendarDate)
  | time (t : LocalTime) (offset : Option Int)
  | list (items : List Data)
  | tuple (items : List Data)
  | set (items : List Data)
  | map (entries : List (Data × Data))
  deriving Inhabited

namespace Data

/-! ## Quoted form -/

/-- A span of minutes as whole days and the seconds left, which are never negative. -/
def offsetQuoted (minutes : Int) : String :=
  let seconds := minutes * 60
  let days := Int.fdiv seconds 86400
  let rest := Int.fmod seconds 86400
  let parts :=
    (if days == 0 then [] else ["days=" ++ Text.decimalInt days]) ++
    (if rest == 0 then [] else ["seconds=" ++ Text.decimalInt rest])
  "datetime.timedelta(" ++ (if parts.isEmpty then "0" else ", ".intercalate parts) ++ ")"

/-- The zone of a time whose distance from UTC is known. -/
def zoneQuoted (offset : Int) : String :=
  if offset == 0 then "datetime.timezone.utc" else "datetime.timezone(" ++ offsetQuoted offset ++ ")"

def dateFields (d : CalendarDate) : List String :=
  [Text.decimal d.year, Text.decimal d.month, Text.decimal d.day]

/-- The fields of a time; seconds and microseconds are left out from the end while they are zero. -/
def timeFields (t : LocalTime) : List String :=
  let seconds :=
    if t.microsecond != 0 then [Text.decimal t.second, Text.decimal t.microsecond]
    else if t.second != 0 then [Text.decimal t.second]
    else []
  dateFields t.date ++ [Text.decimal t.hour, Text.decimal t.minute] ++ seconds

def timeQuoted (t : LocalTime) (offset : Option Int) : String :=
  let zone := match offset with
    | none => []
    | some o => ["tzinfo=" ++ zoneQuoted o]
  "datetime.datetime(" ++ ", ".intercalate (timeFields t ++ zone) ++ ")"

mutual
/-- The form in which messages show a value. -/
def quoted : Data → String
  | .null => "None"
  | .bool b => if b then "True" else "False"
  | .int n => Text.decimalInt n
  | .float x => x.text
  | .text s => Text.quoted s
  | .bytes b => Text.quotedBytes b
  | .date d => "datetime.date(" ++ ", ".intercalate (dateFields d) ++ ")"
  | .time t offset => timeQuoted t offset
  | .list items => "[" ++ ", ".intercalate (quotedItems items) ++ "]"
  | .tuple items =>
    match quotedItems items with
    | [one] => "(" ++ one ++ ",)"
    | many => "(" ++ ", ".intercalate many ++ ")"
  | .set items =>
    match quotedItems items with
    | [] => "set()"
    | many => "\x7b" ++ ", ".intercalate many ++ "\x7d"
  | .map entries => "\x7b" ++ ", ".intercalate (quotedEntries entries) ++ "\x7d"

def quotedItems : List Data → List String
  | [] => []
  | d :: rest => quoted d :: quotedItems rest

def quotedEntries : List (Data × Data) → List String
  | [] => []
  | (k, v) :: rest => (quoted k ++ ": " ++ quoted v) :: quotedEntries rest
end

mutual
/-- Whether a value can be shown: no integer in it has too many digits. -/
def isWritable : Data → Bool
  | .int n => Numeral.isWritable n
  | .list items | .tuple items | .set items => areWritable items
  | .map entries => entriesWritable entries
  | _ => true

def areWritable : List Data → Bool
  | [] => true
  | d :: rest => isWritable d && areWritable rest

def entriesWritable : List (Data × Data) → Bool
  | [] => true
  | (k, v) :: rest => isWritable k && isWritable v && entriesWritable rest
end

/-- The distance from UTC at the end of a written time. -/
def zoneText : Option Int → String
  | none => ""
  | some o => offsetText o

/-- The bare form of a value: a text stands for itself, dates and times are written out, all else
has its quoted form. -/
def bare : Data → String
  | .text s => s
  | .date d => d.text
  | .time t offset => t.text ++ zoneText offset
  | d => d.quoted

/-! ## Equality -/

/-- The number that a value equals, if it is a whole number or a truth value. -/
def asInt? : Data → Option Int
  | .bool b => some (if b then 1 else 0)
  | .int n => some n
  | _ => none

mutual
/-- Equal as values. -/
def equal : Data → Data → Bool
  | .null, .null => true
  | .text a, .text b => a == b
  | .bytes a, .bytes b => a == b
  | .date a, .date b => a == b
  | .time a (some o), .time b (some o') => (Moment.mk a o).instant == (Moment.mk b o').instant
  | .time a none, .time b none => a == b
  | .float x, .float y => x.eq y
  | .list a, .list b => equalItems a b
  | .tuple a, .tuple b => equalItems a b
  | .set a, .set b => a.length == b.length && allIn a b
  | .map a, .map b => a.length == b.length && allEntriesIn a b
  | .float x, d | d, .float x => match d.asInt? with
    | some n => x.eqInt n
    | none => false
  | a, b => match a.asInt?, b.asInt? with
    | some m, some n => m == n
    | _, _ => false

def equalItems : List Data → List Data → Bool
  | [], [] => true
  | a :: as, b :: bs => equal a b && equalItems as bs
  | _, _ => false

/-- Every item is equal to one of the others. -/
def allIn : List Data → List Data → Bool
  | [], _ => true
  | a :: as, bs => bs.any (fun b => equal a b) && allIn as bs

/-- Every entry has an entry of equal key and value among the others. -/
def allEntriesIn : List (Data × Data) → List (Data × Data) → Bool
  | [], _ => true
  | (k, v) :: rest, others =>
    others.any (fun (k', v') => equal k k' && equal v v') && allEntriesIn rest others
end

/-- Whether a value may be a key: whatever holds no list, mapping or set. -/
def isKey : Data → Bool
  | .list _ | .set _ | .map _ => false
  | _ => true

/-- The value at a key of a mapping. -/
def lookup (entries : List (Data × Data)) (key : Data) : Option Data :=
  (entries.find? fun e => e.1.equal key).map (·.2)

/-- Entries with the value at a key replaced, or with a new entry at the end. -/
def insert (entries : List (Data × Data)) (key value : Data) : List (Data × Data) :=
  match entries with
  | [] => [(key, value)]
  | (k, v) :: rest => if k.equal key then (k, value) :: rest else (k, v) :: insert rest key value

/-- The value of a member of a mapping. -/
def member? (d : Data) (name : String) : Option Data :=
  match d with
  | .map entries => lookup entries (.text name)
  | _ => none

/-- Whether a value counts as given: not null, zero, empty or false. -/
def isTruthy : Data → Bool
  | .null => false
  | .bool b => b
  | .int n => n != 0
  | .float x => !(x.eqInt 0)
  | .text s => !s.isEmpty
  | .bytes b => b.size != 0
  | .date _ | .time .. => true
  | .list xs | .tuple xs | .set xs => !xs.isEmpty
  | .map es => !es.isEmpty

end Data

end Cnd
