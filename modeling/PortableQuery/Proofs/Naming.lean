import PortableQuery.Aql.Loop
import PortableQuery.Cql.Select
import PortableQuery.Proofs.Statement.NameToken
import PortableQuery.Sql.Select

set_option autoImplicit false

/-!
# Names are read back

In three languages a name is written as a word or in quotes, and the token that a lexer finds there
is the name. A keyword is quoted only if it is reserved, so the few keywords that are not stand
where a name is meant.
-/

namespace PortableQuery

open Text

/-! ## Words in capitals -/

theorem capitals_of_isPlainWord {word : String} (h : isPlainWord word = true) :
    capitals word = upper word := by
  rw [capitals, ← toList_upper_of_isPlainWord h, String.ofList_toList]

theorem map_toLower_capitals {word : String} (h : isLowerSnake word = true) :
    String.ofList ((capitals word).toList.map Char.toLower) = word := by
  have hascii : ∀ n < 128, isSnakeChar (Char.ofNat n) = true →
      (Char.ofNat n).toUpper.toLower = Char.ofNat n := by decide +kernel
  have hchar : ∀ c ∈ word.toList, c.toUpper.toLower = c := by
    intro c hc
    have hsnake := isSnakeChar_of_isLowerSnake h c hc
    have hlt := lt_of_isWordChar (isWordChar_of_isSnakeChar hsnake)
    simpa using hascii c.toNat hlt (by simpa using hsnake)
  have hmap : word.toList.map (Char.toLower ∘ Char.toUpper) = word.toList :=
    (List.map_congr_left hchar).trans (List.map_id' _)
  rw [capitals, String.toList_ofList, List.map_map, hmap, String.ofList_toList]

/-! ## Plain names are words -/

theorem NameRules.isWord_of_isPlainWord {r : NameRules}
    (hbegins : ∀ c, c.isAlpha = true → r.begins c = true)
    (hcontinues : ∀ c, isWordChar c = true → r.continues c = true) {name : String}
    (h : isPlainWord name = true) (hfolds : r.folds → name.toList.map Char.toLower = name.toList) :
    r.IsWord name := by
  obtain ⟨c, cs, hcs, hc, hall⟩ := exists_cons_of_isPlainWord h
  exact ⟨⟨c, cs, hcs, hbegins c hc, fun x hx => hcontinues x (hall x hx)⟩, hfolds⟩

/-- Where every keyword is reserved, and no plain name is, names are read back. -/
theorem NameRules.token?_write_of_reserved {r : NameRules} {plain : String → Bool}
    {reserved : List String} (hreserved : ∀ w ∈ r.keywords, w ∈ reserved)
    (hword : ∀ name, plain name = true → r.IsWord name)
    (hplain : ∀ name, plain name = true →
      capitals name = upper name ∧ isReserved reserved name = false)
    (name : String) {rest : List Char} (h : r.Ends rest) :
    r.token? ((r.write plain name).toList ++ rest) = some (.name name, rest) := by
  rw [NameRules.token?_write hword name h, if_neg]
  rintro ⟨hname, hkeyword⟩
  obtain ⟨hupper, hfree⟩ := hplain name hname
  rw [hupper] at hkeyword
  exact absurd (hreserved _ hkeyword) (by simpa [isReserved] using hfree)

/-! ## SQL -/

namespace Sql

/-- The keywords of statements. -/
def statementWords : List String :=
  ["SELECT", "FROM", "WHERE", "AND", "OR", "NOT", "IN", "LIKE", "BETWEEN", "IS", "NULL", "ORDER",
    "BY", "ASC", "DESC", "LIMIT", "OFFSET"]

/-- Words have letters, also beyond ASCII, underscores and, behind the first character, digits and
dollar signs; their case makes no difference. -/
def nameRules : NameRules where
  begins c := c.isAlpha || c == '_' || 128 ≤ c.toNat
  continues c := c.isAlphanum || c == '_' || c == '$' || 128 ≤ c.toNat
  folds := true
  mark := '"'
  escapes := false
  keywords := reservedWords ++ statementWords

/-- The keywords of statements that are not reserved, in small letters. -/
def unreservedWords : List String := ["like", "between", "is", "by"]

theorem isWord_of_isPlain (name : String) (h : isPlain name = true) : nameRules.IsWord name := by
  have hsnake := (Bool.and_eq_true_iff.mp h).1
  refine NameRules.isWord_of_isPlainWord (fun c hc => ?_) (fun c hc => ?_)
    (isPlainWord_of_isLowerSnake hsnake) fun _ => map_toLower_of_isLowerSnake hsnake
  · simp [nameRules, hc]
  · simp only [isWordChar, Bool.or_eq_true, beq_iff_eq] at hc
    simp [nameRules, hc]

theorem identifier_eq_write : identifier = nameRules.write isPlain := rfl

theorem isPlain_and_keyword_iff (name : String) :
    (isPlain name = true ∧ capitals name ∈ nameRules.keywords) ↔ name ∈ unreservedWords := by
  constructor
  · rintro ⟨hplain, hkeyword⟩
    obtain ⟨hsnake, hreserved⟩ := Bool.and_eq_true_iff.mp hplain
    have hnot : capitals name ∉ reservedWords := by
      rw [capitals_of_isPlainWord (isPlainWord_of_isLowerSnake hsnake)]
      simpa [isReserved, Text.isReserved] using hreserved
    have hword := (List.mem_append.mp hkeyword).resolve_left hnot
    have hall : ∀ w ∈ statementWords, w ∉ reservedWords →
        String.ofList (w.toList.map Char.toLower) ∈ unreservedWords := by decide +kernel
    have hmem := hall _ hword hnot
    rwa [map_toLower_capitals hsnake] at hmem
  · have hall : ∀ w ∈ unreservedWords, isPlain w = true ∧ capitals w ∈ nameRules.keywords := by
      decide +kernel
    exact hall name

theorem token?_identifier (name : String) {rest : List Char} (h : nameRules.Ends rest) :
    nameRules.token? ((identifier name).toList ++ rest) =
      some (if name ∈ unreservedWords then .keyword (capitals name) else .name name, rest) := by
  rw [identifier_eq_write, NameRules.token?_write isWord_of_isPlain name h]
  simp only [isPlain_and_keyword_iff]

theorem identifier_injective : identifier.Injective := by
  rw [identifier_eq_write]
  exact NameRules.write_injective isWord_of_isPlain

end Sql

/-! ## CQL -/

namespace Cql

/-- The keywords of statements. -/
def statementWords : List String :=
  ["SELECT", "FROM", "WHERE", "AND", "IN", "ORDER", "BY", "ASC", "DESC", "ALLOW"]

/-- Words start with a letter of ASCII and have letters, digits and underscores; their case makes no
difference. -/
def nameRules : NameRules where
  begins c := c.isAlpha
  continues c := c.isAlphanum || c == '_'
  folds := true
  mark := '"'
  escapes := false
  keywords := reservedWords ++ statementWords

/-- The name can stand without quotes. -/
def isPlain (name : String) : Bool := isLowerSnake name && !isReserved reservedWords name

theorem isWord_of_isPlain (name : String) (h : isPlain name = true) : nameRules.IsWord name := by
  have hsnake := (Bool.and_eq_true_iff.mp h).1
  exact NameRules.isWord_of_isPlainWord (fun c hc => hc) (fun c hc => hc)
    (isPlainWord_of_isLowerSnake hsnake) fun _ => map_toLower_of_isLowerSnake hsnake

theorem identifier_eq_write : identifier = nameRules.write isPlain := rfl

theorem token?_identifier (name : String) {rest : List Char} (h : nameRules.Ends rest) :
    nameRules.token? ((identifier name).toList ++ rest) = some (.name name, rest) := by
  have hreserved : ∀ w ∈ nameRules.keywords, w ∈ reservedWords := by decide +kernel
  rw [identifier_eq_write]
  refine NameRules.token?_write_of_reserved hreserved isWord_of_isPlain (fun name hname => ?_)
    name h
  obtain ⟨hplain, hfree⟩ := Bool.and_eq_true_iff.mp hname
  exact ⟨capitals_of_isPlainWord (isPlainWord_of_isLowerSnake hplain), by simpa using hfree⟩

theorem identifier_injective : identifier.Injective := by
  rw [identifier_eq_write]
  exact NameRules.write_injective isWord_of_isPlain

end Cql

/-! ## AQL -/

namespace Aql

/-- The keywords of statements. -/
def statementWords : List String :=
  ["FOR", "IN", "FILTER", "AND", "OR", "NOT", "LIKE", "SORT", "ASC", "DESC", "LIMIT", "RETURN"]

/-- Words start with a letter of ASCII, an underscore or a dollar sign and have letters, digits and
underscores. Keywords have no case, but names have. -/
def nameRules : NameRules where
  begins c := c.isAlpha || c == '_' || c == '$'
  continues c := c.isAlphanum || c == '_'
  folds := false
  mark := '\x60'
  escapes := true
  keywords := reservedWords ++ statementWords

/-- The name can stand without quotes. -/
def isPlain (name : String) : Bool := isPlainWord name && !isReserved reservedWords name

theorem isWord_of_isPlain (name : String) (h : isPlain name = true) : nameRules.IsWord name := by
  refine NameRules.isWord_of_isPlainWord (fun c hc => ?_) (fun c hc => hc)
    (Bool.and_eq_true_iff.mp h).1 fun hfolds => absurd hfolds (by decide)
  simp [nameRules, hc]

theorem identifier_eq_write : identifier = nameRules.write isPlain := rfl

theorem token?_identifier (name : String) {rest : List Char} (h : nameRules.Ends rest) :
    nameRules.token? ((identifier name).toList ++ rest) = some (.name name, rest) := by
  have hreserved : ∀ w ∈ nameRules.keywords, w ∈ reservedWords := by decide +kernel
  rw [identifier_eq_write]
  refine NameRules.token?_write_of_reserved hreserved isWord_of_isPlain (fun name hname => ?_)
    name h
  obtain ⟨hplain, hfree⟩ := Bool.and_eq_true_iff.mp hname
  exact ⟨capitals_of_isPlainWord hplain, by simpa using hfree⟩

theorem identifier_injective : identifier.Injective := by
  rw [identifier_eq_write]
  exact NameRules.write_injective isWord_of_isPlain

end Aql

/-! ## All of them -/

/-- **A name that a statement holds is read back as that name, and two names are never written the
same; only in SQL four keywords of statements, which are not reserved, are read as keywords.** -/
theorem identifiers_read_back (name : String) :
    (∀ rest : List Char, Sql.nameRules.Ends rest →
        Sql.nameRules.token? ((Sql.identifier name).toList ++ rest) =
          some (if name ∈ Sql.unreservedWords then .keyword (capitals name) else .name name,
            rest)) ∧
      (∀ rest : List Char, Cql.nameRules.Ends rest →
        Cql.nameRules.token? ((Cql.identifier name).toList ++ rest) = some (.name name, rest)) ∧
      (∀ rest : List Char, Aql.nameRules.Ends rest →
        Aql.nameRules.token? ((Aql.identifier name).toList ++ rest) = some (.name name, rest)) ∧
      ∀ other : String, (Sql.identifier name = Sql.identifier other ↔ name = other) ∧
        (Cql.identifier name = Cql.identifier other ↔ name = other) ∧
        (Aql.identifier name = Aql.identifier other ↔ name = other) :=
  ⟨fun _ h => Sql.token?_identifier name h, fun _ h => Cql.token?_identifier name h,
    fun _ h => Aql.token?_identifier name h, fun _ => ⟨Sql.identifier_injective.eq_iff,
      Cql.identifier_injective.eq_iff, Aql.identifier_injective.eq_iff⟩⟩

/-- A name of marks and backslashes is read back in front of an operator. -/
theorem identifiers_read_back_marks :
    (Sql.nameRules.Ends ['=', '1'] ∧
        Sql.nameRules.token? ((Sql.identifier "\\\x60\"").toList ++ ['=', '1']) =
          some (.name "\\\x60\"", ['=', '1'])) ∧
      (Cql.nameRules.Ends ['=', '1'] ∧
        Cql.nameRules.token? ((Cql.identifier "\\\x60\"").toList ++ ['=', '1']) =
          some (.name "\\\x60\"", ['=', '1'])) ∧
      Aql.nameRules.Ends ['=', '1'] ∧
        Aql.nameRules.token? ((Aql.identifier "\\\x60\"").toList ++ ['=', '1']) =
          some (.name "\\\x60\"", ['=', '1']) := by
  obtain ⟨hsql, hcql, haql, -⟩ := identifiers_read_back "\\\x60\""
  have hsqlEnds : Sql.nameRules.Ends ['=', '1'] := by decide +kernel
  have hcqlEnds : Cql.nameRules.Ends ['=', '1'] := by decide +kernel
  have haqlEnds : Aql.nameRules.Ends ['=', '1'] := by decide +kernel
  refine ⟨⟨hsqlEnds, ?_⟩, ⟨hcqlEnds, hcql _ hcqlEnds⟩, haqlEnds, haql _ haqlEnds⟩
  rw [hsql _ hsqlEnds, if_neg (by decide)]

/-- A column of the name `like` is written without quotes and read as the keyword. -/
theorem like_is_no_name :
    Sql.identifier "like" = "like" ∧ Sql.nameRules.Ends " FROM person".toList ∧
      Sql.nameRules.token? ((Sql.identifier "like").toList ++ " FROM person".toList) =
        some (.keyword "LIKE", " FROM person".toList) ∧
      Sql.nameRules.token? ((Sql.identifier "like").toList ++ " FROM person".toList) ≠
        some (.name "like", " FROM person".toList) := by
  decide +kernel

end PortableQuery
