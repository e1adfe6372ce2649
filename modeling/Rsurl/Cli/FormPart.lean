/-
# `Rsurl.Cli.FormPart` — the argument of `-F`

`form_parser` of `src/bin/rsurl.rs`: a name, a value and modifiers, in quotes
where they have a semicolon in them.  `split_semi` takes the quotes off before
`classify_body` looks at the first character of the value, so a quoted value
that begins with `@` or `<` is taken for a file as a bare one is.
-/
import Rsurl.Error
import Rsurl.Text.Fields

namespace Rsurl.Cli

inductive FormBody where
  | literal (value : Text)
  | file (path : Text)
  | fileAsField (path : Text)
  | literalStrict (value : Text)
deriving DecidableEq, Repr

inductive FormExtra where
  | type (value : Text)
  | filename (value : Text)
  | headersFile (path : Text)
deriving DecidableEq, Repr

structure FormPart where
  name : Text
  body : FormBody
  extras : List FormExtra
deriving DecidableEq, Repr

namespace FormParser

/-! ## The tokens -/

/-- The loop of `split_semi`: in quotes or not, with what is read of the token. -/
def splitLoop : Bool → Text → Text → List Text
  | _, cur, [] => [cur]
  | true, cur, '"' :: rest => splitLoop false cur rest
  | true, cur, '\\' :: '"' :: rest => splitLoop true (cur ++ ['"']) rest
  | true, cur, '\\' :: '\\' :: rest => splitLoop true (cur ++ ['\\']) rest
  | true, cur, c :: rest => splitLoop true (cur ++ [c]) rest
  | false, cur, '"' :: rest => splitLoop true cur rest
  | false, cur, ';' :: rest => cur :: splitLoop false [] rest
  | false, cur, c :: rest => splitLoop false (cur ++ [c]) rest

def splitSemi (s : Text) : List Text := splitLoop false [] s

theorem splitLoop_ne_nil (inQuote : Bool) (cur s : Text) : splitLoop inQuote cur s ≠ [] := by
  fun_induction splitLoop inQuote cur s with
  | case1 => exact List.cons_ne_nil _ _
  | case7 => exact List.cons_ne_nil _ _
  | case2 _ _ ih => exact ih
  | case3 _ _ ih => exact ih
  | case4 _ _ ih => exact ih
  | case5 _ _ _ _ _ _ ih => exact ih
  | case6 _ _ ih => exact ih
  | case8 _ _ _ _ _ ih => exact ih

/-! ## The parser -/

def classifyBody (token : Text) : FormBody :=
  match Text.stripPrefix ['@'] token with
  | some p => .file p
  | none =>
      match Text.stripPrefix ['<'] token with
      | some p => .fileAsField p
      | none => .literal token

def classifyExtra (token : Text) : Except Msg FormExtra :=
  match Text.splitOnce '=' token with
  | none => .error [.str "-F: malformed modifier ", .debug token, .str " (expected key=value)"]
  | some (k, v) =>
      let k := k.trim
      let key := k.toAsciiLowercase
      if key = "type".toList then .ok (.type v)
      else if key = "filename".toList then .ok (.filename v)
      else if key = "headers".toList then
        match Text.stripPrefix ['@'] v with
        | none => .error [.str "-F: ;headers= must be @file (got ", .debug token, .str ")"]
        | some path => .ok (.headersFile path)
      else .error [.str "-F: unknown modifier ", .debug k]

def parse (spec : Text) : Except Msg FormPart :=
  match Text.splitOnce '=' spec with
  | none => .error [.str "-F: expected 'name=value', got ", .debug spec,
      .str " (use --form-string for literal '=')"]
  | some (name, rest) =>
      if name = [] then .error [.str "-F: empty field name: ", .debug spec]
      else do
        let body := classifyBody ((splitSemi rest).head (splitLoop_ne_nil _ _ _))
        let extras ← (splitSemi rest).tail.mapM classifyExtra
        return ⟨name, body, extras⟩

/-! ## Quoted values -/

/-- A value as it is written in quotes. -/
def quote (v : Text) : Text := v.flatMap fun c => if c = '"' ∨ c = '\\' then ['\\', c] else [c]

theorem splitLoop_plain {c : Char} (hquote : c ≠ '"') (hslash : c ≠ '\\') (cur rest : Text) :
    splitLoop true cur (c :: rest) = splitLoop true (cur ++ [c]) rest := by
  rw [splitLoop]
  · exact hquote
  · rintro _ rfl -
    exact hslash rfl
  · rintro _ rfl -
    exact hslash rfl

/-- The loop takes a quoted value for the value, and is behind the quotes. -/
theorem splitLoop_quote (cur v rest : Text) :
    splitLoop true cur (quote v ++ '"' :: rest) = splitLoop false (cur ++ v) rest := by
  induction v generalizing cur with
  | nil => rw [List.append_nil, quote, List.flatMap_nil, List.nil_append, splitLoop]
  | cons c v ih =>
      have hcons : cur ++ c :: v = cur ++ [c] ++ v := List.append_cons cur c v
      have hrest := ih (cur ++ [c])
      rw [hcons, ← hrest, quote, List.flatMap_cons, List.append_assoc, ← quote]
      by_cases hquote : c = '"'
      · rw [if_pos (.inl hquote), hquote]
        rfl
      by_cases hslash : c = '\\'
      · rw [if_pos (.inr hslash), hslash]
        rfl
      · rw [if_neg (not_or.mpr ⟨hquote, hslash⟩)]
        exact splitLoop_plain hquote hslash _ _

theorem splitSemi_quote (v rest : Text) :
    splitSemi ('"' :: quote v ++ '"' :: rest) = splitLoop false v rest :=
  splitLoop_quote [] v rest

/-- A quoted value without modifiers is classified by its own first character. -/
theorem parse_quote {name : Text} (hne : name ≠ []) (heq : '=' ∉ name) (v : Text) :
    parse (name ++ '=' :: '"' :: quote v ++ ['"']) = .ok ⟨name, classifyBody v, []⟩ := by
  have hcut : Text.splitOnce '=' (name ++ '=' :: '"' :: quote v ++ ['"']) =
      some (name, '"' :: quote v ++ ['"']) :=
    Text.splitOnce_eq_some.mpr ⟨List.append_assoc _ _ _, heq⟩
  have htokens : splitSemi ('"' :: quote v ++ ['"']) = [v] := by
    rw [splitSemi_quote, splitLoop]
  rw [parse, hcut]
  simp only [if_neg hne, htokens, List.head_cons, List.tail_cons]
  rfl

/-- It is a literal just if that character is no mark of a file. -/
theorem classifyBody_eq_literal {v : Text} :
    classifyBody v = .literal v ↔ v.head? ≠ some '@' ∧ v.head? ≠ some '<' := by
  have hstrip : ∀ c : Char, Text.stripPrefix [c] v = none ↔ v.head? ≠ some c := by
    intro c
    rw [Option.eq_none_iff_forall_ne_some]
    cases v with
    | nil => simp [Text.stripPrefix_eq_some]
    | cons a v => simp [Text.stripPrefix_eq_some]
  rw [← hstrip, ← hstrip, classifyBody]
  cases Text.stripPrefix ['@'] v with
  | some p => simp
  | none => cases Text.stripPrefix ['<'] v <;> simp

/-- A quoted value is taken literally just if it does not begin with a mark of a file. -/
theorem parse_quote_iff {name : Text} (hne : name ≠ []) (heq : '=' ∉ name) (v : Text) :
    parse (name ++ '=' :: '"' :: quote v ++ ['"']) = .ok ⟨name, .literal v, []⟩ ↔
      v.head? ≠ some '@' ∧ v.head? ≠ some '<' := by
  rw [parse_quote hne heq, ← classifyBody_eq_literal, Except.ok.injEq, FormPart.mk.injEq]
  simp

/-- A value with both characters that need a backslash, and a semicolon. -/
theorem parse_quote_iff_sample :
    parse ("k".toList ++ '=' :: '"' :: quote "a;\"b\\".toList ++ ['"']) =
        .ok ⟨"k".toList, .literal "a;\"b\\".toList, []⟩ ↔
      "a;\"b\\".toList.head? ≠ some '@' ∧ "a;\"b\\".toList.head? ≠ some '<' :=
  parse_quote_iff (by decide) (by decide) _

/-- The quoted `"@/etc/passwd"` is the file of that name. -/
theorem quoted_file :
    parse ("k".toList ++ '=' :: '"' :: quote "@/etc/passwd".toList ++ ['"']) ≠
      .ok ⟨"k".toList, .literal "@/etc/passwd".toList, []⟩ := by
  decide

end FormParser

end Rsurl.Cli
