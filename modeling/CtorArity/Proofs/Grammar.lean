import CtorArity.Json.Token
import Mathlib.Data.List.Chain

/-!
# The grammar of JSON

What a JSON text is, apart from any reader: the written forms of numbers and
texts, the values that tokens make up, and the ways to lay tokens out in a text
(`Layout.Lays`). A text is a JSON document when it lays out the tokens of a
value with nothing but spaces around them.
-/

namespace CtorArity.Json

-- ---------------------------------------------------------------------------
-- Written forms
-- ---------------------------------------------------------------------------

def Then (P Q : List Char → Prop) (w : List Char) : Prop := ∃ a b, P a ∧ Q b ∧ a ++ b = w

def AllDigits (w : List Char) : Prop := ∀ c ∈ w, c.isDigit = true

def IsDigits (w : List Char) : Prop := w ≠ [] ∧ AllDigits w

/-- A zero alone, or digits of which the first is no zero. -/
inductive IsWhole : List Char → Prop
  | zero : IsWhole ['0']
  | digits (hc : c.isDigit = true) (hzero : c ≠ '0') (hw : AllDigits w) : IsWhole (c :: w)

inductive IsFraction : List Char → Prop
  | absent : IsFraction []
  | digits (hw : IsDigits w) : IsFraction ('.' :: w)

inductive IsSign : List Char → Prop
  | absent : IsSign []
  | plus : IsSign ['+']
  | minus : IsSign ['-']

inductive IsExponent : List Char → Prop
  | absent : IsExponent []
  | digits (hc : c = 'e' ∨ c = 'E') (hw : Then IsSign IsDigits w) : IsExponent (c :: w)

inductive IsNumber : List Char → Prop
  | positive (h : Then IsWhole (Then IsFraction IsExponent) w) : IsNumber w
  | negative (h : Then IsWhole (Then IsFraction IsExponent) w) : IsNumber ('-' :: w)

/-- What stands between the quotes of a text. -/
inductive IsBody : List Char → Prop
  | nil : IsBody []
  | plain (hcontrol : 0x20 ≤ c.toNat) (hquote : c ≠ '"') (hslash : c ≠ '\\') (h : IsBody w) :
    IsBody (c :: w)
  | escape (hc : c ∈ ['"', '\\', '/', 'b', 'f', 'n', 'r', 't']) (h : IsBody w) :
    IsBody ('\\' :: c :: w)
  | code (hcode : ∀ d ∈ [d₁, d₂, d₃, d₄], (Escape.hexDigit? d).isSome = true) (h : IsBody w) :
    IsBody ('\\' :: 'u' :: d₁ :: d₂ :: d₃ :: d₄ :: w)

namespace Token

/-- The written form is that of a number or a text where there is one. -/
def Sound : Token → Prop
  | .number w => IsNumber w
  | .text w => IsBody w
  | .stray => False
  | _ => True

def spelling : Token → List Char
  | .openBrace => ['{']
  | .closeBrace => ['}']
  | .openBracket => ['[']
  | .closeBracket => [']']
  | .colon => [':']
  | .comma => [',']
  | .null => ['n', 'u', 'l', 'l']
  | .bool true => ['t', 'r', 'u', 'e']
  | .bool false => ['f', 'a', 'l', 's', 'e']
  | .number w => w
  | .text w => '"' :: (w ++ ['"'])
  | .stray => []

def opens (t : Token) : Bool := t == .openBrace || t == .openBracket

def closes (t : Token) : Bool := t == .closeBrace || t == .closeBracket

def isNumber : Token → Bool
  | .number _ => true
  | _ => false

end Token

-- ---------------------------------------------------------------------------
-- Values
-- ---------------------------------------------------------------------------

abbrev Numeral := { w : List Char // IsNumber w }

abbrev Literal := { w : List Char // IsBody w }

inductive Value
  | null
  | bool (b : Bool)
  | number (n : Numeral)
  | text (s : Literal)
  | array (items : List Value)
  | object (members : List (Literal × Value))

mutual

def Value.tokens : Value → List Token
  | .null => [.null]
  | .bool b => [.bool b]
  | .number n => [.number n.1]
  | .text s => [.text s.1]
  | .array items => .openBracket :: (Value.itemTokens items ++ [.closeBracket])
  | .object members => .openBrace :: (Value.memberTokens members ++ [.closeBrace])

def Value.itemTokens : List Value → List Token
  | [] => []
  | [v] => v.tokens
  | v :: next :: rest => v.tokens ++ .comma :: Value.itemTokens (next :: rest)

def Value.memberTokens : List (Literal × Value) → List Token
  | [] => []
  | [(name, v)] => .text name.1 :: .colon :: v.tokens
  | (name, v) :: next :: rest =>
    .text name.1 :: .colon :: (v.tokens ++ .comma :: Value.memberTokens (next :: rest))

end

/-- No comma stands right before a closing bracket, and no number right after
another. -/
def Token.Fits (a b : Token) : Prop :=
  ¬ (a = .comma ∧ b.closes = true) ∧ ¬ (a.isNumber = true ∧ b.isNumber = true)

/-- Tokens that can stand between separators or brackets. -/
structure Framed (ts : List Token) : Prop where
  fits : ts.IsChain Token.Fits
  sound : ∀ t ∈ ts, t.Sound
  first : ∃ t ∈ ts.head?, t.closes = false
  last : ∃ t ∈ ts.getLast?, t ≠ .comma

namespace Framed

variable {ts us : List Token} {t : Token}

theorem single (hsound : t.Sound) (hcloses : t.closes = false) (hcomma : t ≠ .comma) :
    Framed [t] where
  fits := .singleton t
  sound := by simpa using hsound
  first := ⟨t, rfl, hcloses⟩
  last := ⟨t, rfl, hcomma⟩

theorem join (hts : Framed ts) (hus : Framed us) (ht : t = .comma ∨ t = .colon) :
    Framed (ts ++ t :: us) where
  fits := by
    obtain ⟨first, hfirst, hcloses⟩ := hus.first
    refine List.isChain_append.mpr ⟨hts.fits, List.isChain_cons.mpr ⟨?_, hus.fits⟩, ?_⟩
    · rintro b hb
      obtain rfl : first = b := Option.some.inj (hfirst.symm.trans hb)
      rcases ht with rfl | rfl <;> simp [Token.Fits, hcloses, Token.isNumber]
    · rintro a - b hb
      obtain rfl : t = b := by simpa using hb
      rcases ht with rfl | rfl <;> simp [Token.Fits, Token.closes, Token.isNumber]
  sound := by
    have hsound : t.Sound := by rcases ht with rfl | rfl <;> trivial
    simp only [List.mem_append, List.mem_cons]
    rintro u (hu | rfl | hu)
    · exact hts.sound u hu
    · exact hsound
    · exact hus.sound u hu
  first := by
    obtain ⟨first, hfirst, hcloses⟩ := hts.first
    exact ⟨first, by simp [Option.mem_def.mp hfirst], hcloses⟩
  last := by
    obtain ⟨last, hlast, hcomma⟩ := hus.last
    refine ⟨last, ?_, hcomma⟩
    simp [List.getLast?_append, List.getLast?_cons, Option.mem_def.mp hlast]

theorem empty {start stop : Token} (hstart : start.opens = true) (hstop : stop.closes = true) :
    Framed [start, stop] where
  fits := by
    refine List.isChain_pair.mpr ?_
    cases start <;> cases stop <;> simp_all [Token.Fits, Token.opens, Token.closes, Token.isNumber]
  sound := by
    cases start <;> cases stop <;> simp_all [Token.Sound, Token.opens, Token.closes]
  first := ⟨start, rfl, by cases start <;> simp_all [Token.opens, Token.closes]⟩
  last := ⟨stop, rfl, by rintro rfl; cases hstop⟩

theorem enclose {start stop : Token} (h : Framed ts) (hstart : start.opens = true)
    (hstop : stop.closes = true) : Framed (start :: (ts ++ [stop])) where
  fits := by
    obtain ⟨first, hfirst, hcloses⟩ := h.first
    obtain ⟨last, hlast, hcomma⟩ := h.last
    refine List.isChain_cons.mpr ⟨?_, List.isChain_append.mpr ⟨h.fits, .singleton stop, ?_⟩⟩
    · intro b hb
      obtain rfl : first = b := by simpa [Option.mem_def.mp hfirst] using hb
      cases start <;> simp_all [Token.Fits, Token.opens, Token.isNumber]
    · intro a ha b hb
      obtain rfl : last = a := Option.some.inj (hlast.symm.trans ha)
      obtain rfl : stop = b := by simpa using hb
      refine ⟨fun hboth => hcomma hboth.1, fun hboth => ?_⟩
      cases stop <;> simp_all [Token.closes, Token.isNumber]
  sound := by
    simp only [List.mem_cons, List.mem_append, List.not_mem_nil, or_false]
    rintro t (rfl | ht | rfl)
    · cases t <;> simp_all [Token.opens, Token.Sound]
    · exact h.sound t ht
    · cases t <;> simp_all [Token.closes, Token.Sound]
  first := ⟨start, rfl, by cases start <;> simp_all [Token.opens, Token.closes]⟩
  last := ⟨stop, by simp [List.getLast?_cons], by rintro rfl; cases hstop⟩

theorem named (h : Framed ts) (name : Literal) : Framed (.text name.1 :: .colon :: ts) :=
  (single (t := .text name.1) name.2 rfl nofun).join h (.inr rfl)

end Framed

mutual

theorem Value.framed : ∀ v : Value, Framed v.tokens
  | .null => .single trivial rfl nofun
  | .bool _ => .single trivial rfl nofun
  | .number n => .single n.2 rfl nofun
  | .text s => .single s.2 rfl nofun
  | .array [] => .empty rfl rfl
  | .array (v :: rest) => (Value.framed_itemTokens (v :: rest) nofun).enclose rfl rfl
  | .object [] => .empty rfl rfl
  | .object (member :: rest) =>
    (Value.framed_memberTokens (member :: rest) nofun).enclose rfl rfl

theorem Value.framed_itemTokens : ∀ items : List Value, items ≠ [] →
    Framed (Value.itemTokens items)
  | [v], _ => v.framed
  | v :: next :: rest, _ => v.framed.join (Value.framed_itemTokens (next :: rest) nofun) (.inl rfl)

theorem Value.framed_memberTokens : ∀ members : List (Literal × Value), members ≠ [] →
    Framed (Value.memberTokens members)
  | [(name, v)], _ => v.framed.named name
  | (name, v) :: next :: rest, _ =>
    (v.framed.named name).join (Value.framed_memberTokens (next :: rest) nofun) (.inl rfl)

end

-- ---------------------------------------------------------------------------
-- Texts
-- ---------------------------------------------------------------------------

/-- What may stand between tokens, how a token may be written, and what may
stand at the end. -/
structure Layout where
  gap : List Char → Prop
  spells : Token → List Char → Prop
  tail : List Char → Prop

inductive Layout.Lays (l : Layout) : List Token → List Char → Prop
  | nil (htail : l.tail e) : l.Lays [] e
  | cons (hgap : l.gap g) (hspells : l.spells t w) (h : l.Lays ts s) :
    l.Lays (t :: ts) (g ++ (w ++ s))

theorem Layout.Lays.mono {l m : Layout} (hgap : ∀ g, l.gap g → m.gap g)
    (hspells : ∀ t w, l.spells t w → m.spells t w) (htail : ∀ e, l.tail e → m.tail e)
    (h : l.Lays ts s) : m.Lays ts s := by
  induction h with
  | nil he => exact .nil (htail _ he)
  | cons hg hw _ ih => exact .cons (hgap _ hg) (hspells _ _ hw) ih

def Token.SpelledBy (t : Token) (w : List Char) : Prop := t.Sound ∧ w = t.spelling

def IsBlank (g : List Char) : Prop := ∀ c ∈ g, Token.isSpace c = true

/-- Standard JSON: spaces between tokens and nothing else. -/
def Layout.plain : Layout := ⟨IsBlank, Token.SpelledBy, IsBlank⟩

def IsDocument (s : List Char) : Prop := ∃ v : Value, Layout.plain.Lays v.tokens s

end CtorArity.Json
