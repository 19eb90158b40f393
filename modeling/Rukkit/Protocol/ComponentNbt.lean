import Rukkit.Protocol.NbtTags
import Rukkit.Protocol.Text

/-!
# Components as NBT

The NBT form of `rukkit-protocol/src/text.rs` loses nothing: the component can be
computed back from its tag, and within the limits of the binary form the tag comes back
from its bytes.
-/

namespace Rukkit.Protocol

open Rukkit.Lib Rukkit.Lib.Reading

namespace Component

/-- Induction over the component tree, from the children to the component. -/
theorem induction {motive : Component → Prop}
    (step : ∀ c, (∀ child ∈ c.extra, motive child) → motive c) (c : Component) : motive c := by
  apply step
  intro child hchild
  have hsize : sizeOf child < sizeOf c := by
    cases c with
    | mk text translate color bold italic underlined strikethrough obfuscated extra =>
        have hextra : sizeOf child < sizeOf extra := List.sizeOf_lt_of_mem hchild
        simp only [Component.mk.sizeOf_spec]
        omega
  exact induction step child
termination_by sizeOf c

mutual

/-- Levels of `extra` below the component. -/
def levels : Component → Nat
  | ⟨_, _, _, _, _, _, _, _, extra⟩ => levelsAll extra

def levelsAll : List Component → Nat
  | [] => 0
  | c :: cs => max (levels c + 1) (levelsAll cs)

end

/-- `p` holds of the component and of every component in its tree. -/
inductive All (p : Component → Prop) : Component → Prop
  | intro {c : Component} (here : p c) (below : ∀ child ∈ c.extra, All p child) : All p c

/-- Strings take at most 65535 bytes of modified UTF-8. -/
def LocallyFits (c : Component) : Prop :=
  ∀ field ∈ [c.text, c.translate, c.color], ∀ s, field = some s → FitsPrefix s

/-- What the binary form can carry. -/
structure Sendable (c : Component) : Prop where
  levels_le : c.levels ≤ 255
  fits : c.All LocallyFits
  extra_le : c.All fun c => c.extra.length ≤ 2 ^ 24

/-! ## Computing the component back -/

/-- A component with no field set. -/
def blank : Component where
  text := none
  translate := none
  color := none
  bold := none
  italic := none
  underlined := none
  strikethrough := none
  obfuscated := none
  extra := []

def ofStringTag : NbtTag → Option String
  | .string s => some s
  | _ => none

def ofBoolTag : NbtTag → Option Bool
  | .byte v => some (v != 0)
  | _ => none

/-- Sets the field that a key names from its tag. -/
def setField (c : Component) (key : String) (value : NbtTag) : Option Component :=
  if key = "text" then (ofStringTag value).map fun s => { c with text := some s }
  else if key = "translate" then (ofStringTag value).map fun s => { c with translate := some s }
  else if key = "color" then (ofStringTag value).map fun s => { c with color := some s }
  else if key = "bold" then (ofBoolTag value).map fun b => { c with bold := some b }
  else if key = "italic" then (ofBoolTag value).map fun b => { c with italic := some b }
  else if key = "underlined" then (ofBoolTag value).map fun b => { c with underlined := some b }
  else if key = "strikethrough" then
    (ofBoolTag value).map fun b => { c with strikethrough := some b }
  else if key = "obfuscated" then (ofBoolTag value).map fun b => { c with obfuscated := some b }
  else none

mutual

/-- The component of a tag, all nine fields of it and of the components below it. -/
def ofNbt : NbtTag → Option Component
  | .compound entries => ofEntries entries
  | _ => none

def ofChildren : NbtTag → Option (List Component)
  | .list _ items => ofItems items
  | _ => none

def ofItems : List NbtTag → Option (List Component)
  | [] => some []
  | item :: items => do return (← ofNbt item) :: (← ofItems items)

def ofEntries : List (String × NbtTag) → Option Component
  | [] => some blank
  | (key, value) :: entries => do
      let c ← ofEntries entries
      if key = "extra" then return { c with extra := ← ofChildren value }
      else setField c key value

end

/-! ## The entries of a component -/

/-- The keys in the order in which `to_nbt` inserts them. -/
def fieldNames : List String :=
  ["text", "translate", "color", "bold", "italic", "underlined", "strikethrough", "obfuscated",
    "extra"]

/-- The entry of a field, where it is set. -/
def fieldEntries {α : Type} (key : String) (field : Option α) (tag : α → NbtTag) :
    List (String × NbtTag) :=
  (field.map fun value => (key, tag value)).toList

/-- The entry of the children, where there are any. -/
def extraEntries (children : List NbtTag) : List (String × NbtTag) :=
  if children.isEmpty then [] else [("extra", .list tagCompound children)]

/-- A field whose key is not there yet goes to the end. -/
theorem insertSome_fresh {α : Type} {entries : List (String × NbtTag)} {names : List String}
    (key : String) (field : Option α) (tag : α → NbtTag)
    (hnames : (entries.map Prod.fst).Sublist names) (hkey : key ∉ names) :
    insertSome entries key field tag = entries ++ fieldEntries key field tag ∧
      ((insertSome entries key field tag).map Prod.fst).Sublist (names ++ [key]) := by
  have hfresh : key ∉ entries.map Prod.fst := fun hmem => hkey (hnames.subset hmem)
  cases field with
  | none =>
      constructor
      · simp [insertSome, fieldEntries]
      · exact hnames.trans (List.sublist_append_left names [key])
  | some value =>
      have hinsert : insertSome entries key (some value) tag = entries ++ [(key, tag value)] :=
        nbtInsert_fresh (tag value) hfresh
      constructor
      · exact hinsert
      · rw [hinsert, List.map_append]
        exact hnames.append (List.Sublist.refl [key])

theorem toNbtAll_eq (cs : List Component) : toNbtAll cs = cs.map toNbt := by
  induction cs with
  | nil => rfl
  | cons c cs ih => rw [toNbtAll, ih, List.map_cons]

theorem typeId_toNbt (c : Component) : c.toNbt.typeId = tagCompound := by
  cases c
  rfl

theorem typeId_of_mem_toNbtAll {cs : List Component} :
    ∀ child ∈ toNbtAll cs, child.typeId = tagCompound := by
  intro child hchild
  rw [toNbtAll_eq] at hchild
  obtain ⟨c, _, rfl⟩ := List.mem_map.mp hchild
  exact typeId_toNbt c

theorem nbtListNew_compounds {children : List NbtTag}
    (htype : ∀ child ∈ children, child.typeId = tagCompound) (hne : ¬ children.isEmpty) :
    nbtListNew children = some (.list tagCompound children) := by
  cases children with
  | nil => exact absurd rfl hne
  | cons first rest =>
      have hfirst := htype first List.mem_cons_self
      have hany : ((first :: rest).any fun t => t.typeId != first.typeId) = false := by
        rw [List.any_eq_false]
        intro child hchild
        rw [htype child hchild, hfirst]
        decide
      rw [nbtListNew, hany, hfirst]
      rfl

/-- The entries that `to_nbt` inserts, one after the other. -/
def nbtEntries (c : Component) : List (String × NbtTag) :=
  fieldEntries "text" c.text .string ++ (fieldEntries "translate" c.translate .string ++
    (fieldEntries "color" c.color .string ++ (fieldEntries "bold" c.bold boolTag ++
    (fieldEntries "italic" c.italic boolTag ++ (fieldEntries "underlined" c.underlined boolTag ++
    (fieldEntries "strikethrough" c.strikethrough boolTag ++
    (fieldEntries "obfuscated" c.obfuscated boolTag ++ extraEntries (toNbtAll c.extra))))))))

/-- No key comes twice, and the list of children is never refused. -/
theorem toNbt_eq (c : Component) :
    c.toNbt = .compound c.nbtEntries ∧ (c.nbtEntries.map Prod.fst).Sublist fieldNames := by
  obtain ⟨text, translate, color, bold, italic, underlined, strikethrough, obfuscated, extra⟩ := c
  have hstart : (([] : List (String × NbtTag)).map Prod.fst).Sublist [] := List.Sublist.refl []
  obtain ⟨h₁, hnames₁⟩ := insertSome_fresh "text" text .string hstart (by decide)
  obtain ⟨h₂, hnames₂⟩ := insertSome_fresh "translate" translate .string hnames₁ (by decide)
  obtain ⟨h₃, hnames₃⟩ := insertSome_fresh "color" color .string hnames₂ (by decide)
  obtain ⟨h₄, hnames₄⟩ := insertSome_fresh "bold" bold boolTag hnames₃ (by decide)
  obtain ⟨h₅, hnames₅⟩ := insertSome_fresh "italic" italic boolTag hnames₄ (by decide)
  obtain ⟨h₆, hnames₆⟩ := insertSome_fresh "underlined" underlined boolTag hnames₅ (by decide)
  obtain ⟨h₇, hnames₇⟩ := insertSome_fresh "strikethrough" strikethrough boolTag hnames₆
    (by decide)
  obtain ⟨h₈, hnames₈⟩ := insertSome_fresh "obfuscated" obfuscated boolTag hnames₇ (by decide)
  rw [toNbt, entries, nbtEntries, extraEntries]
  by_cases hempty : (toNbtAll extra).isEmpty
  · rw [if_pos hempty, if_pos hempty]
    rw [h₈, h₇, h₆, h₅, h₄, h₃, h₂, h₁] at hnames₈ ⊢
    simp only [List.nil_append, List.append_assoc, List.append_nil] at hnames₈ ⊢
    exact ⟨trivial, hnames₈.trans (by decide)⟩
  · obtain ⟨h₉, hnames₉⟩ := insertSome_fresh "extra"
      (some (NbtTag.list tagCompound (toNbtAll extra))) id hnames₈ (by decide)
    rw [if_neg hempty, if_neg hempty, nbtListNew_compounds typeId_of_mem_toNbtAll hempty]
    rw [h₉, h₈, h₇, h₆, h₅, h₄, h₃, h₂, h₁] at hnames₉ ⊢
    simp only [List.nil_append, List.append_assoc] at hnames₉ ⊢
    exact ⟨rfl, hnames₉⟩

/-! ## The inverse -/

/-- One field in front of entries that leave it unset. -/
theorem ofEntries_field {α : Type} (key : String) (field : Option α) (tag : α → NbtTag)
    {rest : List (String × NbtTag)} {c : Component} (set : Component → Option α → Component)
    (hrest : ofEntries rest = some c) (hkey : key ≠ "extra")
    (hset : ∀ value, setField c key (tag value) = some (set c (some value)))
    (hnone : set c none = c) :
    ofEntries (fieldEntries key field tag ++ rest) = some (set c field) := by
  cases field with
  | none =>
      rw [hnone]
      exact hrest
  | some value =>
      change ofEntries ((key, tag value) :: rest) = _
      rw [ofEntries, hrest, ← hset value]
      simp only [Option.bind_eq_bind, Option.bind_some, if_neg hkey]

theorem ofEntries_extra {children : List NbtTag} {extra : List Component}
    (hitems : ofItems children = some extra) :
    ofEntries (extraEntries children) = some { blank with extra := extra } := by
  cases children with
  | nil =>
      rw [ofItems, Option.some.injEq] at hitems
      rw [← hitems]
      rfl
  | cons first rest =>
      change ofEntries [("extra", .list tagCompound (first :: rest))] = _
      rw [ofEntries, ofEntries, ofChildren, hitems]
      rfl

theorem ofItems_map {cs : List Component} (h : ∀ c ∈ cs, ofNbt c.toNbt = some c) :
    ofItems (cs.map toNbt) = some cs := by
  induction cs with
  | nil => rfl
  | cons c cs ih =>
      have htail := ih fun other hother => h other (List.mem_cons_of_mem c hother)
      rw [List.map_cons, ofItems, h c List.mem_cons_self, htail]
      rfl

theorem ofBoolTag_boolTag (value : Bool) : ofBoolTag (boolTag value) = some value := by
  cases value <;> rfl

/-- A component is computed back from its tag. -/
theorem ofNbt_toNbt (c : Component) : ofNbt c.toNbt = some c := by
  induction c using Component.induction with
  | step c ih =>
      have hitems : ofItems (toNbtAll c.extra) = some c.extra := by
        rw [toNbtAll_eq]
        exact ofItems_map ih
      rw [(toNbt_eq c).1, ofNbt, nbtEntries]
      -- the fields are set from the last one inserted to the first
      have h₀ := ofEntries_extra hitems
      have h₁ := ofEntries_field "obfuscated" c.obfuscated boolTag
        (fun c v => { c with obfuscated := v }) h₀ (by decide)
        (fun v => by simp [setField, ofBoolTag_boolTag v]) rfl
      have h₂ := ofEntries_field "strikethrough" c.strikethrough boolTag
        (fun c v => { c with strikethrough := v }) h₁ (by decide)
        (fun v => by simp [setField, ofBoolTag_boolTag v]) rfl
      have h₃ := ofEntries_field "underlined" c.underlined boolTag
        (fun c v => { c with underlined := v }) h₂ (by decide)
        (fun v => by simp [setField, ofBoolTag_boolTag v]) rfl
      have h₄ := ofEntries_field "italic" c.italic boolTag (fun c v => { c with italic := v }) h₃
        (by decide) (fun v => by simp [setField, ofBoolTag_boolTag v]) rfl
      have h₅ := ofEntries_field "bold" c.bold boolTag (fun c v => { c with bold := v }) h₄
        (by decide) (fun v => by simp [setField, ofBoolTag_boolTag v]) rfl
      have h₆ := ofEntries_field "color" c.color .string (fun c v => { c with color := v }) h₅
        (by decide) (fun v => by simp [setField, ofStringTag]) rfl
      have h₇ := ofEntries_field "translate" c.translate .string
        (fun c v => { c with translate := v }) h₆ (by decide)
        (fun v => by simp [setField, ofStringTag]) rfl
      have h₈ := ofEntries_field "text" c.text .string (fun c v => { c with text := v }) h₇
        (by decide) (fun v => by simp [setField, ofStringTag]) rfl
      rw [h₈]
      cases c
      rfl

/-! ## What the binary form asks for -/

theorem forall_fieldEntries {α : Type} {p : String × NbtTag → Prop} {key : String}
    {field : Option α} {tag : α → NbtTag} (h : ∀ value, field = some value → p (key, tag value)) :
    ∀ entry ∈ fieldEntries key field tag, p entry := by
  cases field with
  | none => exact fun entry hentry => absurd hentry List.not_mem_nil
  | some value =>
      intro entry hentry
      rw [List.mem_singleton.mp hentry]
      exact h value rfl

/-- The values of a component: its strings, its flags and the list of its children. -/
theorem forall_nbtEntries {c : Component} {p : NbtTag → Prop}
    (hstring : ∀ field ∈ [c.text, c.translate, c.color], ∀ s, field = some s → p (.string s))
    (hbyte : ∀ v, p (.byte v)) (hlist : p (.list tagCompound (toNbtAll c.extra))) :
    ∀ entry ∈ c.nbtEntries, p entry.2 := by
  have hextra : ∀ entry ∈ extraEntries (toNbtAll c.extra), p entry.2 := by
    unfold extraEntries
    split
    · exact fun entry hentry => absurd hentry List.not_mem_nil
    · intro entry hentry
      rw [List.mem_singleton.mp hentry]
      exact hlist
  have hbool {key : String} {field : Option Bool} :
      ∀ entry ∈ fieldEntries key field boolTag, p entry.2 :=
    forall_fieldEntries fun value _ => hbyte _
  have htext {key : String} {field : Option String}
      (hfield : field ∈ [c.text, c.translate, c.color]) :
      ∀ entry ∈ fieldEntries key field .string, p entry.2 :=
    forall_fieldEntries fun s hs => hstring field hfield s hs
  unfold nbtEntries
  simp only [List.forall_mem_append]
  exact ⟨htext (by simp), htext (by simp), htext (by simp), hbool, hbool, hbool, hbool, hbool,
    hextra⟩

/-- What holds of the tag, of its values and of the tags of its children holds throughout. -/
theorem all_toNbt {c : Component} {p : NbtTag → Prop} (hroot : p c.toNbt)
    (hstring : ∀ field ∈ [c.text, c.translate, c.color], ∀ s, field = some s → p (.string s))
    (hbyte : ∀ v, p (.byte v)) (hlist : p (.list tagCompound (toNbtAll c.extra)))
    (hextra : ∀ child ∈ c.extra, child.toNbt.All p) : c.toNbt.All p := by
  have hitems : (NbtTag.list tagCompound (toNbtAll c.extra)).All p := by
    apply NbtTag.All.intro hlist
    intro item hitem
    rw [NbtTag.children, toNbtAll_eq] at hitem
    obtain ⟨child, hchild, rfl⟩ := List.mem_map.mp hitem
    exact hextra child hchild
  have hvalues : ∀ entry ∈ c.nbtEntries, entry.2.All p :=
    forall_nbtEntries (fun field hfield s hs => .leaf (hstring field hfield s hs) rfl)
      (fun v => .leaf (hbyte v) rfl) hitems
  apply NbtTag.All.intro hroot
  intro child hchild
  rw [(toNbt_eq c).1, NbtTag.children] at hchild
  obtain ⟨entry, hentry, rfl⟩ := List.mem_map.mp hchild
  exact hvalues entry hentry

theorem typed_toNbt (c : Component) : c.toNbt.All NbtTag.LocallyTyped := by
  induction c using Component.induction with
  | step c ih =>
      obtain ⟨htag, hnames⟩ := toNbt_eq c
      have hroot : c.toNbt.LocallyTyped := by
        rw [htag]
        exact hnames.nodup (by decide)
      exact all_toNbt hroot (fun _ _ _ _ => trivial) (fun _ => trivial) typeId_of_mem_toNbtAll ih

theorem All.here {p : Component → Prop} {c : Component} (h : All p c) : p c := by
  cases h with
  | intro here _ => exact here

theorem All.child {p : Component → Prop} {c : Component} (h : All p c) :
    ∀ child ∈ c.extra, All p child := by
  cases h with
  | intro _ below => exact below

theorem sized_toNbt {c : Component} (h : c.All fun c => c.extra.length ≤ 2 ^ 24) :
    c.toNbt.All NbtTag.LocallySized := by
  induction c using Component.induction with
  | step c ih =>
      have hroot : c.toNbt.LocallySized := by
        rw [(toNbt_eq c).1]
        trivial
      have hlist : (NbtTag.list tagCompound (toNbtAll c.extra)).LocallySized := by
        change (toNbtAll c.extra).length ≤ maxArrayLen
        rw [toNbtAll_eq, List.length_map]
        exact h.here
      exact all_toNbt hroot (fun _ _ _ _ => trivial) (fun _ => trivial) hlist
        fun child hchild => ih child hchild (h.child child hchild)

theorem fits_toNbt {c : Component} (h : c.All LocallyFits) :
    c.toNbt.All NbtTag.LocallyFits := by
  induction c using Component.induction with
  | step c ih =>
      obtain ⟨htag, hnames⟩ := toNbt_eq c
      have hkeys : ∀ name ∈ fieldNames, FitsPrefix name := by decide
      have hroot : c.toNbt.LocallyFits := by
        rw [htag]
        intro entry hentry
        exact hkeys entry.1 (hnames.subset (List.mem_map_of_mem hentry))
      exact all_toNbt hroot h.here (fun _ => trivial) trivial
        fun child hchild => ih child hchild (h.child child hchild)

/-! ## Depth -/

theorem levelsAll_le_iff (cs : List Component) (n : Nat) :
    levelsAll cs ≤ n ↔ ∀ c ∈ cs, levels c + 1 ≤ n := by
  induction cs with
  | nil => simp [levelsAll]
  | cons c cs ih =>
      rw [levelsAll, max_le_iff, ih]
      simp

theorem levels_lt_of_child {c child : Component} (h : child ∈ c.extra) :
    child.levels < c.levels := by
  have hall := (levelsAll_le_iff c.extra c.levels).mp (by cases c; exact Nat.le_refl _)
  exact hall child h

/-- Each level of `extra` is a list and a compound; the last compound may hold a field. -/
theorem depth_toNbt_le (c : Component) : c.toNbt.depth ≤ 2 * c.levels + 1 := by
  induction c using Component.induction with
  | step c ih =>
      have hlist : (NbtTag.list tagCompound (toNbtAll c.extra)).depth + 1 ≤ 2 * c.levels + 1 := by
        apply Nat.succ_le_succ
        rw [NbtTag.depth_le_iff]
        intro item hitem
        rw [NbtTag.children, toNbtAll_eq] at hitem
        obtain ⟨child, hchild, rfl⟩ := List.mem_map.mp hitem
        have hdepth := ih child hchild
        have hlevels := levels_lt_of_child hchild
        omega
      have hvalues : ∀ entry ∈ c.nbtEntries, entry.2.depth + 1 ≤ 2 * c.levels + 1 := by
        apply forall_nbtEntries (p := fun value => value.depth + 1 ≤ 2 * c.levels + 1) _ _ hlist
        · intro field hfield s hs
          simp [NbtTag.depth]
        · intro v
          simp [NbtTag.depth]
      rw [(toNbt_eq c).1, NbtTag.depth_le_iff]
      intro child hchild
      obtain ⟨entry, hentry, rfl⟩ := List.mem_map.mp hchild
      exact hvalues entry hentry

/-! ## The round trip -/

/-- A component that can be sent comes back as the tag it was sent as, with what follows it
left. -/
theorem Sendable.reads {c : Component} (h : c.Sendable) :
    ReadsAs readNetwork (writeNetwork c.toNbt) c.toNbt := by
  have hdepth : c.toNbt.depth ≤ maxDepth := by
    have hle := depth_toNbt_le c
    have hlevels := h.levels_le
    unfold maxDepth
    omega
  have hread := readNetwork_reads hdepth (typed_toNbt c) (sized_toNbt h.extra_le)
  rwa [NbtTag.clip_of_fits (typed_toNbt c) (fits_toNbt h.fits)] at hread

/-- The binary form loses nothing: the bytes of a component that can be sent are read back as
its tag, every component is computed back from its tag, field by field, and so two that are
sent as the same bytes are equal. -/
theorem toNbt_lossless :
    (∀ c : Component, c.Sendable → ∀ suffix,
      ∃ r, readNetwork (PacketReader.new (writeNetwork c.toNbt ++ suffix)) = .ok c.toNbt r ∧
        r.peekRest = suffix) ∧
    (∀ c : Component, ofNbt c.toNbt = some c) ∧
    (∀ c c' : Component, c.Sendable → c'.Sendable →
      writeNetwork c.toNbt = writeNetwork c'.toNbt → c = c') := by
  refine ⟨?_, ofNbt_toNbt, ?_⟩
  · intro c hc suffix
    exact hc.reads _ suffix (PacketReader.peekRest_new _)
  · intro c c' hc hc' hbytes
    have hread := hc.reads
    rw [hbytes] at hread
    have hinput : (PacketReader.new (writeNetwork c'.toNbt)).peekRest =
        writeNetwork c'.toNbt ++ [] := (List.append_nil _).symm
    have htags := hread.unique hc'.reads hinput
    have hback := ofNbt_toNbt c
    rw [htags, ofNbt_toNbt c'] at hback
    exact (Option.some.inj hback).symm

theorem toNbt_lossless_nested :
    ∃ r, readNetwork (PacketReader.new (writeNetwork
        (toNbt { blank with text := some "Hi", extra := [{ blank with bold := some false }] }) ++
          [7])) =
      .ok (toNbt { blank with text := some "Hi", extra := [{ blank with bold := some false }] }) r ∧
        r.peekRest = [7] := by
  have hchild {p : Component → Prop} (h : p { blank with bold := some false }) :
      All p { blank with bold := some false } :=
    .intro h fun child hchild => absurd hchild List.not_mem_nil
  apply toNbt_lossless.1
  refine ⟨by decide, .intro ?_ ?_, .intro (by decide) ?_⟩
  · intro field hfield s hs
    simp only [blank, List.mem_cons, List.not_mem_nil, or_false] at hfield
    rcases hfield with rfl | rfl | rfl
    · rw [← Option.some.inj hs]
      decide
    · cases hs
    · cases hs
  · intro child hmem
    rw [List.mem_singleton.mp hmem]
    apply hchild
    intro field hfield s hs
    simp only [blank, List.mem_cons, List.not_mem_nil, or_false, or_self] at hfield
    rw [hfield] at hs
    cases hs
  · intro child hmem
    rw [List.mem_singleton.mp hmem]
    exact hchild (by decide)

end Component

end Rukkit.Protocol
