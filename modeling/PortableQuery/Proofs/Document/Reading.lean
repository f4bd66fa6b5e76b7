import Mathlib.Data.List.Forall2
import PortableQuery.Proofs.Document.Encoding
import PortableQuery.Proofs.Formula

set_option autoImplicit false

/-!
# Reading document filters

The grammar of filters. Connectives and operators are keys that start with `$`, and paths are the
other keys, so a path stands for no operator; what stands under an operator is not read any further.
-/

namespace PortableQuery.Document

/-- The operator of a key. -/
def operator? (key : String) : Option Operator :=
  if key = "$eq" then some .equals
  else if key = "$gt" then some .greater
  else if key = "$gte" then some .greaterOrEqual
  else if key = "$lt" then some .less
  else if key = "$lte" then some .lessOrEqual
  else if key = "$in" then some .oneOf
  else if key = "$regex" then some .like
  else none

/-- The connective of a key. -/
def connective? (key : String) : Option Connective :=
  if key = "$and" then some .and else if key = "$or" then some .or else none

/-- The object restricts a field: by an operator, or to a range by its two bounds. -/
inductive Restricts : Json → Operator → Json → Prop
  | single {key : String} {o : Operator} {operand : Json} : operator? key = some o →
      Restricts (.object [⟨key, operand⟩]) o operand
  | range {low high : String} {lower upper : Json} : operator? low = some .greaterOrEqual →
      operator? high = some .lessOrEqual →
      Restricts (.object [⟨low, lower⟩, ⟨high, upper⟩]) .between (.array [lower, upper])

/-- The object is read as the formula. -/
inductive Reads : Json → Formula (Comparison Json) → Prop
  | join {key : String} {c : Connective} {parts : List Json}
      {fs : List (Formula (Comparison Json))} : connective? key = some c →
      List.Forall₂ Reads parts fs → Reads (.object [⟨key, .array parts⟩]) (.join c fs)
  | restricted {path : String} {operators operand : Json} {o : Operator} :
      isDollar path = false → Restricts operators o operand →
      Reads (.object [⟨path, operators⟩]) (.atom ⟨o, path, operand⟩)
  | negated {path negation : String} {operators operand : Json} {o : Operator} :
      isDollar path = false → negation = "$not" → Restricts operators o operand →
      Reads (.object [⟨path, .object [⟨negation, operators⟩]⟩]) (.not (.atom ⟨o, path, operand⟩))

/-! ## Keys that start with `$` -/

/-- What stands under the key is a part of the filter, and no operand. -/
def holdsFilter (key : String) : Bool := (connective? key).isSome || key == "$not"

mutual

/-- The keys that start with `$` where a connective or an operator can stand, in order; operands are
left out. -/
def signs : Json → List String
  | .array items => signsOfItems items
  | .object members => signsOfMembers members
  | _ => []
termination_by structural j => j

/-- The keys of several filters. -/
def signsOfItems : List Json → List String
  | [] => []
  | j :: js => signs j ++ signsOfItems js
termination_by structural js => js

/-- The keys of an object: its own and, except under an operator, those further inside. -/
def signsOfMembers : List (Named Json) → List String
  | [] => []
  | ⟨key, j⟩ :: ms =>
    (if isDollar key then if holdsFilter key then key :: signs j else [key] else signs j) ++
      signsOfMembers ms
termination_by structural ms => ms

end

theorem signsOfItems_eq (js : List Json) : signsOfItems js = js.flatMap signs := by
  induction js with
  | nil => rfl
  | cons j js ih => rw [signsOfItems, ih, List.flatMap_cons]

/-- The key of a connective. -/
def connectiveKey : Connective → String
  | .and => "$and"
  | .or => "$or"

/-- The keys of an operator. -/
def operatorKeys : Operator → List String
  | .equals => ["$eq"]
  | .greater => ["$gt"]
  | .greaterOrEqual => ["$gte"]
  | .less => ["$lt"]
  | .lessOrEqual => ["$lte"]
  | .oneOf => ["$in"]
  | .like => ["$regex"]
  | .between => ["$gte", "$lte"]

/-- The keys that the connectives, negations and operators of a formula take, in order. -/
def signsOf {N : Type} : Formula (Comparison N) → List String :=
  Formula.fold (fun a => operatorKeys a.operator) (fun c keys => connectiveKey c :: keys.flatten)
    ("$not" :: ·)

/-! ## What a condition is read as -/

/-- The operand of a comparison with a value of this document form: a pattern is its regular
expression. -/
def operandOf : Operator → Json → Json
  | .like, .string pattern => .string (regexOfLike pattern)
  | _, j => j

/-- A comparison of a condition as it is read: the identity is `_id`, and values have their document
form. -/
def written (config : CompilerConfig) (a : Comparison Value) : Comparison (Option Json) :=
  ⟨a.operator, if a.field = config.idField then "_id" else a.field,
    (encode? a.value).map (operandOf a.operator)⟩

/-- The same without regard to how patterns are written. -/
def encoded (config : CompilerConfig) (a : Comparison Value) : Comparison (Option Json) :=
  ⟨a.operator, if a.field = config.idField then "_id" else a.field, encode? a.value⟩

theorem operandOf_injective (o : Operator) : Function.Injective (operandOf o) := by
  intro j k h
  cases o with
  | like =>
    cases j with
    | string p =>
      cases k with
      | string p' => rw [regexOfLike_injective (Json.string.inj h)]
      | _ => cases h
    | _ => cases k <;> first | exact h | cases h
  | _ => exact h

theorem encoded_eq_of_written_eq {config config' : CompilerConfig} {a a' : Comparison Value}
    (h : written config a = written config' a') : encoded config a = encoded config' a' := by
  obtain ⟨ho, hp, hv⟩ := Comparison.mk.inj h
  rw [ho] at hv
  rw [encoded, encoded, ho, hp, Option.map_injective (operandOf_injective a'.operator) hv]

end PortableQuery.Document
