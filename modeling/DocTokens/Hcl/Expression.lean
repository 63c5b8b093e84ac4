import DocTokens.Text.Decimal

/-! # Expressions and their values

The expressions that the value of an attribute can be written with, and what they evaluate to.
Nothing is defined outside an expression: there are no functions, and the only variables are those
that a loop binds.
-/

namespace DocTokens.Hcl

inductive Value where
  | null
  | boolean (b : Bool)
  | number (d : Decimal)
  | string (s : String)
  | tuple (items : List Value)
  | object (fields : List (String × Value))
  deriving Repr

inductive Operator where
  | or
  | and
  | equal
  | unequal
  | greater
  | greaterOrEqual
  | less
  | lessOrEqual
  | add
  | subtract
  | multiply
  | divide
  | remainder
  deriving DecidableEq, Repr

inductive Expression where
  | literal (v : Value)
  | named (name : String)
  /-- Texts put one after the other. -/
  | template (parts : List Expression)
  | tuple (items : List Expression)
  | object (fields : List (Expression × Expression))
  | negate (e : Expression)
  | not (e : Expression)
  | binary (op : Operator) (left right : Expression)
  | conditional (test yes no : Expression)
  | call (name : String) (arguments : List Expression)
  | member (e : Expression) (name : String)
  | index (e key : Expression)
  /-- For every item of a tuple, an expression in which the item has the empty name. -/
  | splat (e each : Expression)
  /-- For every item of a collection the value of `body`, where the test holds. -/
  | forTuple (key item : String) (collection body test : Expression)
  | forObject (key item : String) (collection name body test : Expression)
  /-- The texts of `body` for every item of a collection. -/
  | forText (key item : String) (collection body : Expression)
  deriving Repr

namespace Value

/-- The text of a value; collections and null have none. -/
def text? : Value → Option String
  | string s => some s
  | number d => some d.render
  | boolean b => some (if b then "true" else "false")
  | _ => none

def number? : Value → Option Decimal
  | number d => some d
  | string s => Decimal.ofText? s
  | _ => none

def boolean? : Value → Option Bool
  | boolean b => some b
  | string s =>
    if s = "true" ∨ s = "1" then some true
    else if s = "false" ∨ s = "0" then some false
    else none
  | _ => none

mutual

/-- Equality of values of one kind. -/
def equal : Value → Value → Bool
  | null, null => true
  | boolean a, boolean b => a == b
  | number a, number b => a.equal b
  | string a, string b => a == b
  | tuple a, tuple b => equalItems a b
  | object a, object b => equalFields a b
  | _, _ => false

def equalItems : List Value → List Value → Bool
  | [], [] => true
  | a :: as, b :: bs => equal a b && equalItems as bs
  | _, _ => false

def equalFields : List (String × Value) → List (String × Value) → Bool
  | [], [] => true
  | (n, a) :: as, (m, b) :: bs => n == m && equal a b && equalFields as bs
  | _, _ => false

end

/-- The items of a collection with their keys. -/
def items? : Value → Option (List (Value × Value))
  | tuple items => some (items.zipIdx.map fun (v, i) => (number (.ofInt i), v))
  | object fields => some (fields.map fun (name, v) => (string name, v))
  | _ => none

/-- Two values as the results of one condition: a text and another scalar are both texts. -/
def unify? : Value → Value → Option (Value × Value)
  | null, b => some (null, b)
  | a, null => some (a, null)
  | boolean a, boolean b => some (boolean a, boolean b)
  | number a, number b => some (number a, number b)
  | tuple a, tuple b => some (tuple a, tuple b)
  | object a, object b => some (object a, object b)
  | string a, b => b.text?.map fun b => (string a, string b)
  | a, string b => a.text?.map fun a => (string a, string b)
  | _, _ => none

/-- The result of a condition. The result that is not taken need not have a value. -/
def choose? (test : Bool) : Option Value → Option Value → Option Value
  | some yes, some no => (yes.unify? no).map fun (yes, no) => if test then yes else no
  | some yes, none => if test then some yes else none
  | none, some no => if test then none else some no
  | none, none => none

/-- Sets a field, keeping the fields in the order of their names. -/
def setField (name : String) (v : Value) : List (String × Value) → List (String × Value)
  | [] => [(name, v)]
  | (n, w) :: rest =>
    if name = n then (name, v) :: rest
    else if name < n then (name, v) :: (n, w) :: rest
    else (n, w) :: setField name v rest

/-- The object of the given fields, unless a name repeats. -/
def ofFields? (fields : List (String × Value)) : Option Value :=
  let names := fields.map Prod.fst
  if names.eraseDups.length = names.length then
    some (object (fields.foldl (fun all (name, v) => setField name v all) []))
  else none

end Value

namespace Operator

/-- The decimal places of a quotient. -/
def quotientPlaces : Nat := 154

def arithmetic (f : Decimal → Decimal → Option Decimal) (a b : Value) : Option Value := do
  (f (← a.number?) (← b.number?)).map .number

def comparison (f : Decimal → Decimal → Bool) (a b : Value) : Option Value := do
  return .boolean (f (← a.number?) (← b.number?))

def logic (f : Bool → Bool → Bool) (a b : Value) : Option Value := do
  return .boolean (f (← a.boolean?) (← b.boolean?))

/-- Applies an operator; there is no value where the operands do not fit. -/
def apply : Operator → Value → Value → Option Value
  | or => logic (· || ·)
  | and => logic (· && ·)
  | equal => fun a b => some (.boolean (a.equal b))
  | unequal => fun a b => some (.boolean (!a.equal b))
  | greater => comparison fun a b => b.lt a
  | greaterOrEqual => comparison fun a b => !a.lt b
  | less => comparison fun a b => a.lt b
  | lessOrEqual => comparison fun a b => !b.lt a
  | add => arithmetic fun a b => some (a.add b)
  | subtract => arithmetic fun a b => some (a.sub b)
  | multiply => arithmetic fun a b => some (a.mul b)
  | divide => arithmetic fun a b => if b.isZero then none else some (a.div b quotientPlaces)
  | remainder => arithmetic fun a b => if b.isZero then none else some (a.mod b)

end Operator

/-- The value at a key of a collection. -/
def Value.index? (v key : Value) : Option Value :=
  match v with
  | .tuple items => do
    let n ← (← key.number?).toInt?
    if n < 0 then none else items[n.toNat]?
  | .object fields => key.text?.bind fun name => fields.lookup name
  | _ => none

namespace Expression

/-- The variables that are bound. -/
abbrev Scope := List (String × Value)

mutual

/-- The value of an expression; there is none where something does not fit. -/
def eval (scope : Scope) : Expression → Option Value
  | literal v => some v
  | named name => scope.lookup name
  | template parts => (evalText scope parts).map .string
  | tuple items => (evalItems scope items).map .tuple
  | object fields => (evalFields scope fields []).map .object
  | negate e => ((eval scope e).bind Value.number?).map fun d => .number d.neg
  | not e => ((eval scope e).bind Value.boolean?).map fun b => .boolean (!b)
  | binary op left right =>
    match eval scope left, eval scope right with
    | some a, some b => op.apply a b
    | _, _ => none
  | conditional test yes no =>
    (eval scope test).bind fun t => t.boolean?.bind fun t =>
      Value.choose? t (eval scope yes) (eval scope no)
  | call _ _ => none
  | member e name =>
    match eval scope e with
    | some (.object fields) => fields.lookup name
    | _ => none
  | index e key =>
    match eval scope e, eval scope key with
    | some v, some k => v.index? k
    | _, _ => none
  | splat e each =>
    match eval scope e with
    | none => none
    | some .null => some (.tuple [])
    | some (.tuple items) =>
      (items.mapM fun v => eval (("", v) :: scope) each).map .tuple
    | some v => (eval (("", v) :: scope) each).map fun w => .tuple [w]
  | forTuple key item collection body test =>
    match (eval scope collection).bind Value.items? with
    | none => none
    | some items =>
      let each := items.mapM fun (k, v) =>
        let scope := (item, v) :: (key, k) :: scope
        match (eval scope test).bind Value.boolean? with
        | none => none
        | some false => some none
        | some true => (eval scope body).map some
      each.map fun found => .tuple (found.filterMap id)
  | forObject key item collection name body test =>
    match (eval scope collection).bind Value.items? with
    | none => none
    | some items =>
      let each := items.mapM fun (k, v) =>
        let scope := (item, v) :: (key, k) :: scope
        match (eval scope test).bind Value.boolean? with
        | none => none
        | some false => some none
        | some true =>
          match (eval scope name).bind Value.text?, eval scope body with
          | some n, some v => some (some (n, v))
          | _, _ => none
      each.bind fun found => Value.ofFields? (found.filterMap id)
  | forText key item collection body =>
    match (eval scope collection).bind Value.items? with
    | none => none
    | some items =>
      let each := items.mapM fun (k, v) =>
        (eval ((item, v) :: (key, k) :: scope) body).bind Value.text?
      each.map fun texts => .string (String.join texts)

def evalText (scope : Scope) : List Expression → Option String
  | [] => some ""
  | e :: rest =>
    match (eval scope e).bind Value.text?, evalText scope rest with
    | some a, some b => some (a ++ b)
    | _, _ => none

def evalItems (scope : Scope) : List Expression → Option (List Value)
  | [] => some []
  | e :: rest =>
    match eval scope e, evalItems scope rest with
    | some v, some vs => some (v :: vs)
    | _, _ => none

def evalFields (scope : Scope) :
    List (Expression × Expression) → List (String × Value) → Option (List (String × Value))
  | [], fields => some fields
  | (name, e) :: rest, fields =>
    match (eval scope name).bind Value.text?, eval scope e with
    | some n, some v => evalFields scope rest (Value.setField n v fields)
    | _, _ => none

end

end Expression

end DocTokens.Hcl
