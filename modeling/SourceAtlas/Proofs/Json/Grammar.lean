import SourceAtlas.Json.Quotation
import SourceAtlas.Json.Reader
set_option autoImplicit false

namespace SourceAtlas.Json

abbrev Language := List Char → Prop

def IsSpace : Language := fun cs => ∀ c ∈ cs, isGap c = true

/-- A word of a language with gaps around it. -/
def Padded (L : Language) : Language := fun cs => ∃ before word behind,
  cs = before ++ (word ++ behind) ∧ IsSpace before ∧ L word ∧ IsSpace behind

def IsDigits : Language := fun cs => cs ≠ [] ∧ ∀ c ∈ cs, c.isDigit = true

def IsWhole : Language := fun cs => IsDigits cs ∧ (cs.head? = some '0' → cs = ['0'])

def IsFraction : Language := fun cs => ∃ digits, cs = '.' :: digits ∧ IsDigits digits

def IsSign : Language := fun cs => cs = [] ∨ cs = ['+'] ∨ cs = ['-']

def IsExponent : Language := fun cs => ∃ letter sign digits, cs = letter :: (sign ++ digits) ∧
  (letter = 'e' ∨ letter = 'E') ∧ IsSign sign ∧ IsDigits digits

def IsScale : Language := fun cs => ∃ fraction exponent, cs = fraction ++ exponent ∧
  (fraction = [] ∨ IsFraction fraction) ∧ (exponent = [] ∨ IsExponent exponent)

def IsMagnitude : Language := fun cs => ∃ whole scale, cs = whole ++ scale ∧ IsWhole whole ∧
  IsScale scale

def IsNumeral : Language := fun cs => ∃ sign magnitude, cs = sign ++ magnitude ∧
  (sign = [] ∨ sign = ['-']) ∧ IsMagnitude magnitude

/-- A number that is not refused for being beyond the largest one in double precision. How large it is
comes out in the arithmetic of its reader, which rounds twice. -/
def IsInRange : Language := fun cs => IsNumeral cs ∧
  ∀ fault, readNumber cs = .error fault → fault.cause ≠ .numberOutOfRange

def IsSurrogate (unit : Nat) : Prop := 0xD800 ≤ unit ∧ unit ≤ 0xDFFF

inductive Escapes : List Char → Char → Prop
  | short {e c : Char} (known : escaped? e = some c) : Escapes [e] c
  | unit {a b c d : Char} {unit : Nat} (digits : fourDigits? a b c d = some unit)
    (whole : ¬ IsSurrogate unit) : Escapes ['u', a, b, c, d] (Char.ofNat unit)
  | pair {a b c d e f g h : Char} {high low : Nat} (digits : fourDigits? a b c d = some high)
    (first : 0xD800 ≤ high ∧ high ≤ 0xDBFF) (digits' : fourDigits? e f g h = some low)
    (second : 0xDC00 ≤ low ∧ low ≤ 0xDFFF) :
    Escapes ['u', a, b, c, d, '\\', 'u', e, f, g, h]
      (Char.ofNat ((high - 0xD800) * 0x400 + (low - 0xDC00) + 0x10000))

def IsPlainChar (c : Char) : Prop := c ≠ '"' ∧ c ≠ '\\' ∧ ¬ c.toNat < 0x20

inductive Quotes : List Char → List Char → Prop
  | nil : Quotes [] []
  | plain {c : Char} {cs meaning : List Char} (plain : IsPlainChar c) (rest : Quotes cs meaning) :
    Quotes (c :: cs) (c :: meaning)
  | escape {escape cs meaning : List Char} {c : Char} (one : Escapes escape c)
    (rest : Quotes cs meaning) : Quotes ('\\' :: (escape ++ cs)) (c :: meaning)

def Spells (text : String) : Language := fun cs =>
  ∃ inner, cs = '"' :: (inner ++ ['"']) ∧ Quotes inner text.toList

def IsString : Language := fun cs => ∃ text, Spells text cs

inductive IsEscape : Language
  | short {e c : Char} (known : escaped? e = some c) : IsEscape [e]
  | unit {a b c d : Char} {unit : Nat} (digits : fourDigits? a b c d = some unit) :
    IsEscape ['u', a, b, c, d]

inductive IsQuoted : Language
  | nil : IsQuoted []
  | plain {c : Char} {cs : List Char} (plain : IsPlainChar c) (rest : IsQuoted cs) :
    IsQuoted (c :: cs)
  | escape {escape cs : List Char} (one : IsEscape escape) (rest : IsQuoted cs) :
    IsQuoted ('\\' :: (escape ++ cs))

def IsQuotation : Language := fun cs => ∃ inner, cs = '"' :: (inner ++ ['"']) ∧ IsQuoted inner

def Separates (first : Bool) : Language := fun cs =>
  if first then IsSpace cs
  else ∃ before behind, cs = before ++ ',' :: behind ∧ IsSpace before ∧ IsSpace behind

inductive Entries {κ : Type} (entry : κ → Language) (close : Char) : Bool → List κ → Language
  | close {first : Bool} {space : List Char} (blank : IsSpace space) :
    Entries entry close first [] (space ++ [close])
  | entry {first : Bool} {before one behind : List Char} {label : κ} {labels : List κ}
    (apart : Separates first before) (taken : entry label one)
    (rest : Entries entry close false labels behind) :
    Entries entry close first (label :: labels) (before ++ (one ++ behind))

def IsSequence (item : Language) : Language := fun cs =>
  ∃ inner labels, cs = '[' :: inner ∧ Entries (fun _ : Unit => item) ']' true labels inner

def Assigns (value : Language) : Language := fun cs => ∃ before behind one,
  cs = before ++ ':' :: (behind ++ one) ∧ IsSpace before ∧ IsSpace behind ∧ value one

def IsMember (key value : Language) : Language := fun cs => ∃ word rest, cs = word ++ rest ∧
  key word ∧ Assigns value rest

def IsMap (key value : Language) : Language := fun cs =>
  ∃ inner labels, cs = '{' :: inner ∧
    Entries (fun _ : Unit => IsMember key value) '}' true labels inner

structure Tokens where
  text : Language
  number : Language

def IsNull : Language := fun cs => cs = "null".toList

def Nullable (L : Language) : Language := fun cs => IsNull cs ∨ L cs

def IsScalar (tokens : Tokens) : Language := fun cs =>
  IsNull cs ∨ cs = "true".toList ∨ cs = "false".toList ∨ tokens.text cs ∨
    tokens.number cs

def IsValue (tokens : Tokens) : Nat → Language
  | 0, cs => IsScalar tokens cs
  | depth + 1, cs => IsScalar tokens cs ∨ IsSequence (IsValue tokens depth) cs ∨
    IsMap tokens.text (IsValue tokens depth) cs

def Tokens.any : Tokens := ⟨IsQuotation, IsNumeral⟩

def Tokens.meaningful : Tokens := ⟨IsString, IsInRange⟩

def IsJson : Language := fun cs => ∃ depth, IsValue Tokens.any depth cs

/-- What an object is to hold: the language of the values of each key that is known, that of the
others, and the keys that it must have. -/
structure Shape where
  known : String → Option Language
  other : Language
  required : List String

def Shape.value (shape : Shape) (key : String) : Language :=
  (shape.known key).getD shape.other

def IsRecord (shape : Shape) : Language := fun cs => ∃ inner keys, cs = '{' :: inner ∧
  Entries (fun key => IsMember (Spells key) (shape.value key)) '}' true keys inner ∧
  (∀ key ∈ shape.required, key ∈ keys) ∧
  ∀ key, (shape.known key).isSome = true → keys.count key ≤ 1

end SourceAtlas.Json
