import Rukkit.Protocol.ComponentNbt

/-!
# Building components

The builders of `rukkit-protocol/src/text.rs` and its plain text: whatever is built has the
text that was put in and only colours a client knows.
-/

namespace Rukkit.Protocol.Component

open Rukkit.Lib Rukkit.Lib.Reading

/-! ## Builders -/

/-- `Component::translate`: a component resolved against the client's language file. -/
def translated (key : String) : Component := { blank with translate := some key }

def hexDigit (d : Nat) : Char := Char.ofNat (if d < 10 then 0x30 + d else 0x37 + d)

/-- The last `width` digits of a number, to the base 16. -/
def hexDigits : (width : Nat) → (n : Nat) → List Char
  | 0, _ => []
  | width + 1, n => hexDigits width (n / 16) ++ [hexDigit (n % 16)]

/-- `format!("#{:06X}", rgb & 0xFF_FFFF)`, whose number never takes more than six digits. -/
def hexString (rgb : UInt32) : String :=
  String.ofList ('#' :: hexDigits 6 (rgb &&& 0xFFFFFF).toNat)

/-- The builder methods that set one of the styling fields. -/
inductive Style where
  | color (color : NamedColor)
  | hexColor (rgb : UInt32)
  | bold (value : Bool)
  | italic (value : Bool)
  | underlined (value : Bool)
  | strikethrough (value : Bool)
  | obfuscated (value : Bool)
deriving DecidableEq, Repr

def Style.apply (c : Component) : Style → Component
  | .color named => c.withColor named
  | .hexColor rgb => { c with color := some (hexString rgb) }
  | .bold value => { c with bold := some value }
  | .italic value => { c with italic := some value }
  | .underlined value => { c with underlined := some value }
  | .strikethrough value => { c with strikethrough := some value }
  | .obfuscated value => { c with obfuscated := some value }

/-- Appends a child component. -/
def append (c child : Component) : Component := { c with extra := c.extra ++ [child] }

/-! ## Plain text -/

/-- What `write_plain` pushes for the component itself. -/
def ownText (text translate : Option String) : String :=
  match text with
  | some text => text
  | none => translate.getD ""

mutual

def writePlain : Component → String → String
  | ⟨text, translate, _, _, _, _, _, _, extra⟩, out =>
      writePlainAll extra (out ++ ownText text translate)

def writePlainAll : List Component → String → String
  | [], out => out
  | child :: children, out => writePlainAll children (writePlain child out)

end

/-- Flattens to plain text, discarding styling. -/
def plainText (c : Component) : String := c.writePlain ""

theorem writePlain_eq (c : Component) (out : String) :
    c.writePlain out = writePlainAll c.extra (out ++ ownText c.text c.translate) := by
  cases c
  rfl

theorem writePlainAll_push {cs : List Component}
    (h : ∀ c ∈ cs, ∀ out, c.writePlain out = out ++ c.plainText) :
    ∀ out, writePlainAll cs out = out ++ writePlainAll cs "" := by
  induction cs with
  | nil => exact fun out => (String.append_empty).symm
  | cons c cs ih =>
      intro out
      have hcs := ih fun child hchild => h child (List.mem_cons_of_mem c hchild)
      rw [writePlainAll, writePlainAll, hcs, h c List.mem_cons_self, hcs (c.writePlain ""),
        String.append_assoc]
      rfl

/-- The buffer is only added to. -/
theorem writePlain_push (c : Component) (out : String) :
    c.writePlain out = out ++ c.plainText := by
  induction c using Component.induction generalizing out with
  | step c ih =>
      have hall := writePlainAll_push ih
      rw [plainText, writePlain_eq, writePlain_eq, hall, hall ("" ++ _), String.empty_append,
        String.append_assoc]

theorem writePlainAll_append (cs : List Component) (c : Component) (out : String) :
    writePlainAll (cs ++ [c]) out = writePlainAll cs out ++ c.plainText := by
  induction cs generalizing out with
  | nil => exact writePlain_push c out
  | cons child cs ih =>
      rw [List.cons_append, writePlainAll, writePlainAll, ih]

theorem plainText_append (c child : Component) :
    (c.append child).plainText = c.plainText ++ child.plainText := by
  rw [plainText, plainText, writePlain_eq, writePlain_eq]
  exact writePlainAll_append c.extra child _

theorem plainText_apply (c : Component) (style : Style) :
    (style.apply c).plainText = c.plainText := by
  rw [plainText, plainText, writePlain_eq, writePlain_eq]
  cases style <;> rfl

/-! ## Colours -/

def hexValue (c : Char) : Option Nat :=
  if '0' ≤ c ∧ c ≤ '9' then some (c.toNat - 0x30)
  else if 'A' ≤ c ∧ c ≤ 'F' then some (c.toNat - 0x37)
  else none

/-- The number that hexadecimal digits denote. -/
def readHex (digits : List Char) : Option Nat :=
  digits.foldlM (fun n c => (hexValue c).map fun d => n * 16 + d) 0

/-- The colour that `#` and six digits denote. -/
def readColor (s : String) : Option Nat :=
  match s.toList with
  | '#' :: digits => if digits.length = 6 then readHex digits else none
  | _ => none

theorem hexValue_hexDigit : ∀ d < 16, hexValue (hexDigit d) = some d := by decide

theorem length_hexDigits (width n : Nat) : (hexDigits width n).length = width := by
  induction width generalizing n with
  | zero => rfl
  | succ width ih => rw [hexDigits, List.length_append, ih, List.length_singleton]

theorem readHex_hexDigits (width n : Nat) :
    readHex (hexDigits width n) = some (n % 16 ^ width) := by
  induction width generalizing n with
  | zero =>
      rw [pow_zero, Nat.mod_one]
      rfl
  | succ width ih =>
      unfold readHex at ih
      rw [readHex, hexDigits, List.foldlM_append, ih, Option.bind_eq_bind, Option.bind_some,
        List.foldlM_cons, hexValue_hexDigit _ (Nat.mod_lt _ (by decide)), Option.map_some]
      change some (n / 16 % 16 ^ width * 16 + n % 16) = _
      rw [Nat.pow_succ, Nat.mul_comm (16 ^ width), Nat.mod_mul, Nat.mul_comm, Nat.add_comm]

/-- A hex colour denotes the three bytes it was made from. -/
theorem readColor_hexString (rgb : UInt32) :
    readColor (hexString rgb) = some (rgb.toNat % 2 ^ 24) := by
  have hmask : (rgb &&& 0xFFFFFF).toNat = rgb.toNat % 2 ^ 24 := by
    rw [UInt32.toNat_and]
    exact Nat.and_two_pow_sub_one_eq_mod _ 24
  rw [readColor, hexString, String.toList_ofList]
  change (if (hexDigits 6 _).length = 6 then readHex (hexDigits 6 _) else none) = _
  rw [if_pos (length_hexDigits _ _), readHex_hexDigits, hmask, Nat.mod_eq_of_lt]
  exact Nat.mod_lt _ (by decide)

/-- A colour that a client knows. -/
def KnownColor (s : String) : Prop :=
  (∃ named : NamedColor, s = named.asStr) ∨ ∃ rgb < 2 ^ 24, readColor s = some rgb

/-! ## What is built -/

/-- A component made by the constructors and builder methods, and the texts put into it. -/
inductive Built : Component → String → Prop
  | text (text : String) : Built (literal text) text
  | translate (key : String) : Built (translated key) key
  | style {c : Component} {text : String} (style : Style) : Built c text →
      Built (style.apply c) text
  | append {c child : Component} {text more : String} : Built c text → Built child more →
      Built (c.append child) (text ++ more)

theorem extra_apply (c : Component) (style : Style) : (style.apply c).extra = c.extra := by
  cases style <;> rfl

theorem knownColor_apply {c : Component} (h : ∀ s, c.color = some s → KnownColor s)
    (style : Style) : ∀ s, (style.apply c).color = some s → KnownColor s := by
  cases style with
  | color named =>
      intro s hs
      exact .inl ⟨named, (Option.some.inj hs).symm⟩
  | hexColor rgb =>
      intro s hs
      rw [← Option.some.inj hs]
      exact .inr ⟨_, Nat.mod_lt _ (by decide), readColor_hexString rgb⟩
  | bold | italic | underlined | strikethrough | obfuscated => exact h

theorem All.append {p : Component → Prop} {c child : Component} (h : c.All p)
    (hchild : child.All p) (here : p (c.append child)) : (c.append child).All p := by
  refine .intro here ?_
  intro d hd
  rcases List.mem_append.mp hd with hd | hd
  · exact h.child d hd
  · rw [List.mem_singleton.mp hd]
    exact hchild

theorem Built.plainText_eq {c : Component} {text : String} (h : Built c text) :
    c.plainText = text := by
  induction h with
  | text text => exact String.empty_append
  | translate key => exact String.empty_append
  | style style _ ih => rw [plainText_apply, ih]
  | append _ _ ih ih' => rw [plainText_append, ih, ih']

theorem Built.colors {c : Component} {text : String} (h : Built c text) :
    c.All fun d => ∀ s, d.color = some s → KnownColor s := by
  induction h with
  | text | translate =>
      refine .intro ?_ fun child hchild => absurd hchild List.not_mem_nil
      rintro s ⟨⟩
  | @style c text style _ ih =>
      refine .intro (knownColor_apply ih.here style) ?_
      rw [extra_apply]
      exact ih.child
  | append _ _ ih ih' => exact ih.append ih' ih.here

end Rukkit.Protocol.Component
