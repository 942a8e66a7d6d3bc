import SourceAtlas.Proofs.Json.Collection
set_option autoImplicit false

namespace SourceAtlas.Json

variable {κ : Type}

theorem IsSequence.mono {L M : Language} (sub : ∀ word, L word → M word) {cs : List Char}
    (isSequence : IsSequence L cs) : IsSequence M cs := by
  obtain ⟨inner, labels, rfl, entries⟩ := isSequence
  obtain ⟨labels, entries⟩ := entries.relabel (fun _ : Unit => M)
    fun label word taken => ⟨label, sub word taken⟩
  exact ⟨inner, labels, rfl, entries⟩

theorem IsMember.mono {key other L M : Language} (keys : ∀ word, key word → other word)
    (sub : ∀ word, L word → M word) {cs : List Char} (isMember : IsMember key L cs) :
    IsMember other M cs := by
  obtain ⟨word, _, rfl, isKey, before, behind, one, rfl, space, space', taken⟩ := isMember
  exact ⟨word, _, rfl, keys word isKey, before, behind, one, rfl, space, space', sub one taken⟩

theorem IsMap.mono {key other L M : Language} (keys : ∀ word, key word → other word)
    (sub : ∀ word, L word → M word) {cs : List Char} (isMap : IsMap key L cs) :
    IsMap other M cs := by
  obtain ⟨inner, labels, rfl, entries⟩ := isMap
  obtain ⟨labels, entries⟩ := entries.relabel (fun _ : Unit => IsMember other M)
    fun label word taken => ⟨label, taken.mono keys sub⟩
  exact ⟨inner, labels, rfl, entries⟩

theorem IsValue.succ {tokens : Tokens} {depth : Nat} {cs : List Char}
    (isValue : IsValue tokens depth cs) : IsValue tokens (depth + 1) cs := by
  induction depth generalizing cs with
  | zero => exact .inl isValue
  | succ depth ih =>
    rcases isValue with scalar | isSequence | isMap
    · exact .inl scalar
    · exact .inr (.inl (isSequence.mono fun _ => ih))
    · exact .inr (.inr (isMap.mono (fun _ => id) fun _ => ih))

theorem IsValue.mono {tokens : Tokens} {m n : Nat} (le : m ≤ n) {cs : List Char}
    (isValue : IsValue tokens m cs) : IsValue tokens n cs := by
  induction le with
  | refl => exact isValue
  | step _ ih => exact ih.succ

theorem Entries.bound (entry : Nat → κ → Language) {close : Char} {first : Bool}
    {labels : List κ} {cs : List Char}
    (mono : ∀ m n, m ≤ n → ∀ label word, entry m label word → entry n label word)
    (entries : Entries (fun label word => ∃ n, entry n label word) close first labels cs) :
    ∃ n labels, Entries (entry n) close first labels cs := by
  induction entries with
  | close blank => exact ⟨0, [], .close blank⟩
  | @entry first before one behind label labels apart taken _ ih =>
    obtain ⟨m, taken⟩ := taken
    obtain ⟨n, labels, entries⟩ := ih
    obtain ⟨labels, entries⟩ := entries.relabel (entry (max m n))
      fun label word taken => ⟨label, mono _ _ (le_max_right m n) label word taken⟩
    exact ⟨max m n, label :: labels,
      .entry apart (mono _ _ (le_max_left m n) label one taken) entries⟩

theorem isJson_iff {cs : List Char} : IsJson cs ↔
    IsScalar Tokens.any cs ∨ IsSequence IsJson cs ∨ IsMap IsQuotation IsJson cs := by
  constructor
  · rintro ⟨depth, isValue⟩
    cases depth with
    | zero => exact .inl isValue
    | succ depth =>
      rcases isValue with scalar | isSequence | isMap
      · exact .inl scalar
      · exact .inr (.inl (isSequence.mono fun _ isValue => ⟨depth, isValue⟩))
      · exact .inr (.inr (isMap.mono (fun _ => id) fun _ isValue => ⟨depth, isValue⟩))
  · rintro (scalar | ⟨inner, labels, rfl, entries⟩ | ⟨inner, labels, rfl, entries⟩)
    · exact ⟨0, scalar⟩
    · obtain ⟨depth, labels, entries⟩ := Entries.bound (fun depth _ => IsValue Tokens.any depth)
        (fun m n le _ word isValue => isValue.mono le) entries
      exact ⟨depth + 1, .inr (.inl ⟨inner, labels, rfl, entries⟩)⟩
    · have each : ∀ (_ : Unit) word, IsMember IsQuotation IsJson word →
          ∃ _ : Unit, ∃ depth, IsMember IsQuotation (IsValue Tokens.any depth) word := by
        rintro _ cs ⟨word, _, rfl, isKey, before, behind, one, rfl, space, space', depth, isValue⟩
        exact ⟨(), depth, word, _, rfl, isKey, before, behind, one, rfl, space, space', isValue⟩
      obtain ⟨labels, entries⟩ := entries.relabel _ each
      obtain ⟨depth, labels, entries⟩ := Entries.bound
        (fun depth _ => IsMember IsQuotation (IsValue Tokens.any depth))
        (fun m n le _ word isMember => isMember.mono (fun _ => id) fun _ isValue => isValue.mono le) entries
      exact ⟨depth + 1, .inr (.inr ⟨inner, labels, rfl, entries⟩)⟩

theorem isJson_begins {cs : List Char} (isJson : IsJson cs) : BeginsValue cs := by
  obtain ⟨depth, isValue⟩ := isJson
  exact any_distinct.begins isValue

theorem Escapes.isQuoted {escape cs : List Char} {c : Char} (escapes : Escapes escape c)
    (rest : IsQuoted cs) : IsQuoted ('\\' :: (escape ++ cs)) := by
  cases escapes with
  | short known => exact .escape (.short known) rest
  | unit digits _ => exact .escape (.unit digits) rest
  | @pair x y z w e f g h high low digits _ digits' _ =>
    -- A pair is two escapes in a row.
    have second : IsQuoted ('\\' :: (['u', e, f, g, h] ++ cs)) := .escape (.unit digits') rest
    have both : IsQuoted ('\\' :: (['u', x, y, z, w] ++ _)) := .escape (.unit digits) second
    exact both

theorem Quotes.isQuoted {cs meaning : List Char} (quotes : Quotes cs meaning) : IsQuoted cs := by
  induction quotes with
  | nil => exact .nil
  | plain plain _ ih => exact .plain plain ih
  | escape escapes _ ih => exact escapes.isQuoted ih

theorem Spells.isQuotation {text : String} {cs : List Char} (spells : Spells text cs) :
    IsQuotation cs := by
  obtain ⟨inner, rfl, quotes⟩ := spells
  exact ⟨inner, rfl, quotes.isQuoted⟩

theorem isQuotation_of_isString (cs : List Char) (isString : IsString cs) : IsQuotation cs := by
  obtain ⟨text, spells⟩ := isString
  exact spells.isQuotation

theorem IsScalar.any {cs : List Char} (scalar : IsScalar Tokens.meaningful cs) :
    IsScalar Tokens.any cs := by
  rcases scalar with null | yes | no | isString | inRange
  · exact .inl null
  · exact .inr (.inl yes)
  · exact .inr (.inr (.inl no))
  · exact .inr (.inr (.inr (.inl (isQuotation_of_isString cs isString))))
  · exact .inr (.inr (.inr (.inr inRange.1)))

theorem IsValue.any {depth : Nat} {cs : List Char} (isValue : IsValue Tokens.meaningful depth cs) :
    IsValue Tokens.any depth cs := by
  induction depth generalizing cs with
  | zero => exact IsScalar.any isValue
  | succ depth ih =>
    rcases isValue with scalar | isSequence | isMap
    · exact .inl scalar.any
    · exact .inr (.inl (isSequence.mono fun _ => ih))
    · exact .inr (.inr (isMap.mono isQuotation_of_isString fun _ => ih))

theorem isJson_of_isString {cs : List Char} (isString : IsString cs) : IsJson cs :=
  ⟨0, IsScalar.any (.inr (.inr (.inr (.inl isString))))⟩

theorem isJson_of_isInRange {cs : List Char} (inRange : IsInRange cs) : IsJson cs :=
  ⟨0, IsScalar.any (.inr (.inr (.inr (.inr inRange))))⟩

theorem isJson_of_isNull {cs : List Char} (null : IsNull cs) : IsJson cs :=
  ⟨0, .inl null⟩

theorem isJson_of_nullable {L : Language} (values : ∀ word, L word → IsJson word) {cs : List Char}
    (nullable : Nullable L cs) : IsJson cs :=
  nullable.elim isJson_of_isNull (values cs)

theorem isJson_of_isSequence {L : Language} (values : ∀ word, L word → IsJson word)
    {cs : List Char} (isSequence : IsSequence L cs) : IsJson cs :=
  isJson_iff.2 (.inr (.inl (isSequence.mono values)))

theorem isJson_of_entries {entry : κ → Language} {labels : List κ} {inner : List Char}
    (members : ∀ label word, entry label word → IsMember IsQuotation IsJson word)
    (entries : Entries entry '}' true labels inner) : IsJson ('{' :: inner) := by
  obtain ⟨labels, entries⟩ := entries.relabel (fun _ : Unit => IsMember IsQuotation IsJson)
    fun label word taken => ⟨(), members label word taken⟩
  exact isJson_iff.2 (.inr (.inr ⟨inner, labels, rfl, entries⟩))

theorem isJson_of_isRecord {shape : Shape} (values : ∀ key word, shape.value key word → IsJson word)
    {cs : List Char} (isRecord : IsRecord shape cs) : IsJson cs := by
  obtain ⟨inner, keys, rfl, members, -⟩ := isRecord
  exact isJson_of_entries
    (fun key _ isMember => isMember.mono (fun _ => Spells.isQuotation) (values key)) members

end SourceAtlas.Json
