import GoalModel.Number.Basic

/-! # JSON values

A `Json` value keeps integers apart from other numbers, and the members of an object as a list
of pairs. A value that was read from text has its members in ascending order of their names,
each name once (`Json.setMember` keeps both); a value made for writing has them in the order in
which they are to be written.

`Json.equal` is the equality of the data model, in which `1` and `1.0` are equal. -/

namespace GoalModel

inductive Json where
  | null
  | bool (value : Bool)
  | int (value : Int)
  | float (value : Number)
  | string (value : String)
  | array (items : List Json)
  | object (members : List (String × Json))
  deriving Inhabited, Repr

namespace Json

/-- The member of an object with the given name. -/
def member? (name : String) : Json → Option Json
  | .object members => members.lookup name
  | _ => none

/-- Sets a member in a list of members in ascending order; a member of that name is replaced. -/
def setMember (name : String) (value : Json) : List (String × Json) → List (String × Json)
  | [] => [(name, value)]
  | (other, kept) :: rest =>
    if name = other then (name, value) :: rest
    else if name < other then (name, value) :: (other, kept) :: rest
    else (other, kept) :: setMember name value rest

/-- Whether a number is a given integer. -/
def numberIsInt (x : Number) (n : Int) : Bool :=
  match x with
  | .nan => false
  | .ranked negative rank =>
    decide (rank.val < Number.infinityRank) &&
      decide ((if negative then -(Number.units rank.val : Int) else Number.units rank.val)
        = n * Number.unitsOfOne)

/-- The equality of two numbers, each an integer or not. -/
def equalScalar : Json → Json → Bool
  | .null, .null => true
  | .bool a, .bool b => a == b
  | .int a, .int b => decide (a = b)
  | .int a, .float b => numberIsInt b a
  | .float a, .int b => numberIsInt a b
  | .float a, .float b => a.same b
  | .string a, .string b => a == b
  | _, _ => false

mutual

/-- The equality of JSON values: numbers by value, objects member by member. -/
def equal : Json → Json → Bool
  | .array items, .array others => equalItems items others
  | .object members, .object others =>
    members.length == others.length && equalMembers members others
  | a, b => equalScalar a b

def equalItems : List Json → List Json → Bool
  | [], [] => true
  | a :: as, b :: bs => equal a b && equalItems as bs
  | _, _ => false

def equalMembers : List (String × Json) → List (String × Json) → Bool
  | [], _ => true
  | (name, a) :: rest, others =>
    (match others.lookup name with
      | some b => equal a b
      | none => false) && equalMembers rest others

end

/-- How deeply arrays and objects are nested; a value without any has depth `0`. -/
def depth : Json → Nat
  | .array items => depthItems items + 1
  | .object members => depthMembers members + 1
  | _ => 0
where
  depthItems : List Json → Nat
    | [] => 0
    | a :: as => max a.depth (depthItems as)
  depthMembers : List (String × Json) → Nat
    | [] => 0
    | (_, a) :: rest => max a.depth (depthMembers rest)

end Json

end GoalModel
