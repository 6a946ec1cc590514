/-
  TexEngine.Proofs.Env.Valuation

  What an environment looks like from outside: a total function from places to
  their contents.  Every look-up of an environment is a value of this function,
  an assignment changes it at one place, and undoing a list of assignments is a
  chain of such changes.

  A group remembers places by their keys.  Keys identify places as long as the
  characters involved are Unicode scalar values.
-/
import Mathlib.Logic.Function.Basic
import Std.Data.TreeMap.Lemmas
import TexEngine.Env.Basic

namespace TexEngine

/-! ## Places -/

/-- A place of the environment that an assignment can change. -/
inductive Place where
  | count (name : String)
  | dimen (name : String)
  | glue (name : String)
  | toks (name : String)
  | box (name : String)
  | code (name : String)
  | active (char : CharCode)
  | catcode (char : CharCode)
  | charCode (table : CodeTable) (char : CharCode)
  | font
  | color
  | direction
  deriving DecidableEq, Repr

namespace Place

/-- The type of what is found at a place. -/
def Content (μ : Type) : Place → Type
  | count _ => Int64
  | dimen _ => Dimen
  | glue _ => Glue
  | toks _ => TokenList
  | box _ => Option Box
  | code _ => Option μ
  | active _ => Option μ
  | catcode _ => Catcode
  | charCode _ _ => Int64
  | font => Font
  | color => Color
  | direction => Direction

/-- The character of the place, if it has one, is a Unicode scalar value. -/
def IsScalar : Place → Prop
  | active c => c.IsScalar
  | catcode c => c.IsScalar
  | charCode _ c => c.IsScalar
  | _ => True

instance (p : Place) : Decidable p.IsScalar := by
  cases p <;> unfold IsScalar <;> infer_instance

/-- The key under which a group remembers the place. -/
def key : Place → UndoKey
  | count name => .count name
  | dimen name => .dimen name
  | glue name => .glue name
  | toks name => .toks name
  | box name => .box name
  | code name => .code name
  | active c => .active c.toChar
  | catcode c => .catcode c.toChar
  | charCode table c => .charCode table c.toChar
  | font => .font
  | color => .color
  | direction => .direction

end Place

/-- The scalar values as bounds on an integer. -/
theorem CharCode.isScalar_iff (c : Int) :
    CharCode.IsScalar c ↔ (0 ≤ c ∧ c < 0xD800) ∨ (0xDFFF < c ∧ c < 0x110000) :=
  Iff.rfl

/-- The character of a Unicode scalar value has this number. -/
theorem CharCode.toNat_toChar {c : CharCode} (hc : c.IsScalar) : c.toChar.toNat = c.toNat := by
  have hbounds := (isScalar_iff c).mp hc
  have hvalid : c.toNat.isValidChar := by
    unfold Nat.isValidChar
    omega
  rw [toChar, if_pos hc, Char.ofNat, dif_pos hvalid]
  rfl

/-- A Unicode scalar value is determined by its character. -/
theorem CharCode.eq_of_toChar_eq {c d : CharCode} (hc : c.IsScalar) (hd : d.IsScalar)
    (h : c.toChar = d.toChar) : c = d := by
  have hnat : c.toNat = d.toNat := by rw [← toNat_toChar hc, ← toNat_toChar hd, h]
  rw [isScalar_iff] at hc hd
  show @Eq Int c d
  omega

/-- Places with scalar characters are determined by their keys. -/
theorem Place.eq_of_key_eq {p q : Place} (hp : p.IsScalar) (hq : q.IsScalar)
    (h : p.key = q.key) : p = q := by
  cases p <;> cases q <;> simp only [key, UndoKey.count.injEq, UndoKey.dimen.injEq,
    UndoKey.glue.injEq, UndoKey.toks.injEq, UndoKey.box.injEq, UndoKey.code.injEq,
    UndoKey.active.injEq, UndoKey.catcode.injEq, UndoKey.charCode.injEq, reduceCtorEq] at h
  case active c d => rw [CharCode.eq_of_toChar_eq hp hq h]
  case catcode c d => rw [CharCode.eq_of_toChar_eq hp hq h]
  case charCode t c u d =>
    rw [h.1, CharCode.eq_of_toChar_eq hp hq h.2]
  all_goals first | rw [h] | rfl

/-! ## Texts of keys

No two keys have one text, so that entries which are remembered under their keys could as well be
remembered under the texts: these begin with what tells the kind of place, and none of these
beginnings is continued by another one. -/

namespace UndoKey

/-- The beginning of the text, which tells the kind of place. -/
def heading : UndoKey → String
  | count _ => "count "
  | dimen _ => "dimen "
  | glue _ => "skip "
  | toks _ => "toks "
  | box _ => "box "
  | code _ => "\\"
  | active _ => "active "
  | catcode _ => "catcode "
  | charCode table _ => table.text ++ " "
  | font => "font"
  | color => "color"
  | direction => "textdir"

/-- The rest of the text, which tells one place of the kind. -/
def subject : UndoKey → String
  | count name | dimen name | glue name | toks name | box name | code name => name
  | active c | catcode c | charCode _ c => String.singleton c
  | font | color | direction => ""

/-- All beginnings of texts. -/
def headings : List String :=
  ["count ", "dimen ", "skip ", "toks ", "box ", "\\", "active ", "catcode ", "mathcode ",
    "lccode ", "uccode ", "sfcode ", "delcode ", "font", "color", "textdir"]

/-- The key whose text has these two parts. -/
def ofParts? (heading subject : String) : Option UndoKey :=
  match heading with
  | "count " => some (count subject)
  | "dimen " => some (dimen subject)
  | "skip " => some (glue subject)
  | "toks " => some (toks subject)
  | "box " => some (box subject)
  | "\\" => some (code subject)
  | "font" => some font
  | "color" => some color
  | "textdir" => some direction
  | _ => do
    let c ← subject.toList.head?
    match heading with
    | "active " => some (active c)
    | "catcode " => some (catcode c)
    | "mathcode " => some (charCode .mathcode c)
    | "lccode " => some (charCode .lccode c)
    | "uccode " => some (charCode .uccode c)
    | "sfcode " => some (charCode .sfcode c)
    | "delcode " => some (charCode .delcode c)
    | _ => none

variable (key : UndoKey)

theorem text_eq : key.text = key.heading ++ key.subject := by
  cases key <;> rfl

theorem heading_mem : key.heading ∈ headings := by
  cases key with
  | charCode table c => cases table <;> simp [heading, headings, CodeTable.text]
  | _ => simp [heading, headings]

theorem ofParts?_parts : ofParts? key.heading key.subject = some key := by
  cases key with
  | charCode table c => cases table <;> simp [ofParts?, heading, subject, CodeTable.text]
  | _ => simp [ofParts?, heading, subject]

/-- A beginning that begins another one is that one. -/
theorem headings_prefixFree :
    ∀ a ∈ headings, ∀ b ∈ headings, a.toList <+: b.toList → a = b := by
  decide +kernel

/-- Keys with the same text are the same. -/
theorem text_injective : Function.Injective text := by
  intro key key' h
  have htexts : key.heading.toList ++ key.subject.toList =
      key'.heading.toList ++ key'.subject.toList := by
    rw [← String.toList_append, ← String.toList_append, ← text_eq, ← text_eq, h]
  have hheading : key.heading = key'.heading := by
    rcases List.prefix_or_prefix_of_prefix ⟨_, htexts⟩ ⟨_, rfl⟩ with hle | hle
    · exact headings_prefixFree _ key.heading_mem _ key'.heading_mem hle
    · exact (headings_prefixFree _ key'.heading_mem _ key.heading_mem hle).symm
  have hsubject : key.subject = key'.subject := by
    rw [hheading] at htexts
    exact String.toList_inj.mp (List.append_cancel_left htexts)
  have hparts := ofParts?_parts key
  rw [hheading, hsubject, ofParts?_parts key'] at hparts
  exact (Option.some.inj hparts).symm

end UndoKey

/-- Places with scalar characters are determined by the texts of their keys. -/
theorem Place.eq_of_text_eq {p q : Place} (hp : p.IsScalar) (hq : q.IsScalar)
    (h : p.key.text = q.key.text) : p = q :=
  Place.eq_of_key_eq hp hq (UndoKey.text_injective h)

/-! ## Valuations -/

/-- The contents of all places. -/
abbrev Valuation (μ : Type) := (p : Place) → p.Content μ

namespace Valuation

variable {μ : Type}

/-- The contents of places without an assignment.  The attributes have no such
    state; any value will do for them. -/
def blank (preset : Preset) (unicodeLetters : Bool) : Valuation μ
  | .count _ => (0 : Int64)
  | .dimen _ => (0 : Int64)
  | .glue _ => ({} : Glue)
  | .toks _ => ([] : TokenList)
  | .box _ => (none : Option Box)
  | .code _ => (none : Option μ)
  | .active _ => (none : Option μ)
  | .catcode c => Catcode.default preset unicodeLetters c
  | .charCode t c => t.default unicodeLetters c
  | .font => Font.null
  | .color => ({} : Color)
  | .direction => Direction.leftToRight

end Valuation

namespace Assignment

variable {μ : Type}

/-- The place that is assigned to. -/
def place : Assignment μ → Place
  | count name _ => .count name
  | dimen name _ => .dimen name
  | glue name _ => .glue name
  | toks name _ => .toks name
  | box name _ => .box name
  | code name _ => .code name
  | active c _ => .active c
  | catcode c _ => .catcode c
  | charCode t c _ => .charCode t c
  | font _ => .font
  | color _ => .color
  | direction _ => .direction

/-- What is found at the place behind the assignment; a missing entry reads as
    in `blank`. -/
def content (blank : Valuation μ) : (a : Assignment μ) → a.place.Content μ
  | count name v => Option.getD v (blank (.count name))
  | dimen name v => Option.getD v (blank (.dimen name))
  | glue name v => Option.getD v (blank (.glue name))
  | toks name v => Option.getD v (blank (.toks name))
  | box name v => Option.getD v (blank (.box name))
  | code _ v => v
  | active _ v => v
  | catcode c v => Option.getD v (blank (.catcode c))
  | charCode t c v => Option.getD v (blank (.charCode t c))
  | font v => v
  | color v => v
  | direction v => v

theorem key_eq_key_place (a : Assignment μ) : a.key = a.place.key := by
  cases a <;> rfl

end Assignment

namespace Env

variable {μ : Type}

/-- Everything that can be looked up. -/
def lookup (env : Env μ) : Valuation μ
  | .count name => env.count name
  | .dimen name => env.dimen name
  | .glue name => env.glue name
  | .toks name => env.tokens name
  | .box name => env.box name
  | .code name => env.code? name
  | .active c => env.active? c
  | .catcode c => env.catcode c
  | .charCode t c => env.charCode t c
  | .font => env.font
  | .color => env.color
  | .direction => env.direction

/-- The contents of the places without an assignment. -/
def blank (env : Env μ) : Valuation μ :=
  Valuation.blank env.preset env.unicodeLetters

/-! ## One assignment -/

/-- Setting or removing an entry is seen at its key only. -/
@[simp] theorem getElem?_alterEntry {κ α : Type} {cmp : κ → κ → Ordering} [Std.TransCmp cmp]
    [Std.LawfulEqCmp cmp] (m : Std.TreeMap κ α cmp) (k k' : κ) (v : Option α) [Decidable (k = k')] :
    (alterEntry m k v)[k']? = if k = k' then v else m[k']? := by
  cases v with
  | none => simp [alterEntry, Std.TreeMap.getElem?_erase]
  | some v => simp [alterEntry, Std.TreeMap.getElem?_insert]

theorem getD_alterEntry {κ α : Type} {cmp : κ → κ → Ordering} [Std.TransCmp cmp]
    [Std.LawfulEqCmp cmp] (m : Std.TreeMap κ α cmp) (k k' : κ) (v : Option α) (d : α)
    [Decidable (k = k')] :
    (alterEntry m k v).getD k' d = if k = k' then v.getD d else m.getD k' d := by
  rw [Std.TreeMap.getD_eq_getD_getElem?, getElem?_alterEntry]
  split
  · rfl
  · rw [Std.TreeMap.getD_eq_getD_getElem?]

/-- The place of an assignment has the value that was assigned. -/
theorem lookup_write_self (env : Env μ) (a : Assignment μ) :
    (env.write a).lookup a.place = a.content env.blank := by
  cases a with
  | count name v => exact (getD_alterEntry ..).trans (if_pos rfl)
  | dimen name v => exact (getD_alterEntry ..).trans (if_pos rfl)
  | glue name v => exact (getD_alterEntry ..).trans (if_pos rfl)
  | toks name v => exact (getD_alterEntry ..).trans (if_pos rfl)
  | box name v =>
    exact congrArg (Option.getD · none) ((getElem?_alterEntry ..).trans (if_pos rfl))
  | code name v => exact (getElem?_alterEntry ..).trans (if_pos rfl)
  | active c v => exact (getElem?_alterEntry ..).trans (if_pos rfl)
  | catcode c v => exact (getD_alterEntry ..).trans (if_pos rfl)
  | charCode t c v => cases t <;> exact (getD_alterEntry ..).trans (if_pos rfl)
  | font v => rfl
  | color v => rfl
  | direction v => rfl

/-- All other places keep their values. -/
theorem lookup_write_of_ne (env : Env μ) (a : Assignment μ) {p : Place} (h : p ≠ a.place) :
    (env.write a).lookup p = env.lookup p := by
  -- Assignments to another kind of place change another table.
  cases a with
  | count name v =>
    cases p with
    | count name' =>
      exact (getD_alterEntry ..).trans (if_neg fun hn => h (by rw [hn]; rfl))
    | _ => rfl
  | dimen name v =>
    cases p with
    | dimen name' =>
      exact (getD_alterEntry ..).trans (if_neg fun hn => h (by rw [hn]; rfl))
    | _ => rfl
  | glue name v =>
    cases p with
    | glue name' =>
      exact (getD_alterEntry ..).trans (if_neg fun hn => h (by rw [hn]; rfl))
    | _ => rfl
  | toks name v =>
    cases p with
    | toks name' =>
      exact (getD_alterEntry ..).trans (if_neg fun hn => h (by rw [hn]; rfl))
    | _ => rfl
  | box name v =>
    cases p with
    | box name' =>
      exact congrArg (Option.getD · none)
        ((getElem?_alterEntry ..).trans (if_neg fun hn => h (by rw [hn]; rfl)))
    | _ => rfl
  | code name v =>
    cases p with
    | code name' =>
      exact (getElem?_alterEntry ..).trans (if_neg fun hn => h (by rw [hn]; rfl))
    | _ => rfl
  | active c v =>
    cases p with
    | active d =>
      exact (getElem?_alterEntry ..).trans (if_neg fun hn => h (by rw [hn]; rfl))
    | _ => rfl
  | catcode c v =>
    cases p with
    | catcode d =>
      exact (getD_alterEntry ..).trans (if_neg fun hn => h (by rw [hn]; rfl))
    | _ => rfl
  | charCode t c v =>
    cases p with
    | charCode u d =>
      -- Each of the code tables is a table of its own.
      by_cases htu : t = u
      · subst htu
        have hcd : c ≠ d := fun hcd => h (by rw [hcd]; rfl)
        cases t <;> exact (getD_alterEntry ..).trans (if_neg hcd)
      · cases t <;> cases u <;> first | rfl | exact absurd rfl htu
    | _ => cases t <;> rfl
  | font v =>
    cases p with
    | font => exact absurd rfl h
    | _ => rfl
  | color v =>
    cases p with
    | color => exact absurd rfl h
    | _ => rfl
  | direction v =>
    cases p with
    | direction => exact absurd rfl h
    | _ => rfl

/-- An assignment changes what is found at its place, and nothing else. -/
theorem lookup_write (env : Env μ) (a : Assignment μ) :
    (env.write a).lookup = Function.update env.lookup a.place (a.content env.blank) := by
  funext p
  by_cases hp : p = a.place
  · subst hp
    rw [lookup_write_self, Function.update_self]
  · rw [lookup_write_of_ne env a hp, Function.update_of_ne hp]

@[simp] theorem blank_write (env : Env μ) (a : Assignment μ) : (env.write a).blank = env.blank := by
  cases a with
  | charCode t c v => cases t <;> rfl
  | _ => rfl

@[simp] theorem groups_write (env : Env μ) (a : Assignment μ) :
    (env.write a).groups = env.groups := by
  cases a with
  | charCode t c v => cases t <;> rfl
  | _ => rfl

/-! ## Undoing assignments -/

@[simp] theorem place_current (env : Env μ) (a : Assignment μ) :
    (env.current a).place = a.place := by
  cases a <;> rfl

/-- The assignment that is remembered for undoing another one assigns the content
    that the place has now. -/
theorem content_current (env : Env μ) (a : Assignment μ) :
    (env.current a).content env.blank = env.lookup (env.current a).place := by
  cases a with
  | charCode t c v => exact Std.TreeMap.getD_eq_getD_getElem?.symm
  | box name v => rfl
  | code name v => rfl
  | active c v => rfl
  | font v => rfl
  | color v => rfl
  | direction v => rfl
  | _ => exact Std.TreeMap.getD_eq_getD_getElem?.symm

end Env

namespace Valuation

variable {μ : Type}

/-- The contents after a list of assignments, first one first. -/
def writeAll (blank : Valuation μ) (v : Valuation μ) (as : List (Assignment μ)) : Valuation μ :=
  as.foldl (fun v a => Function.update v a.place (a.content blank)) v

@[simp] theorem writeAll_nil (blank v : Valuation μ) : writeAll blank v [] = v := rfl

@[simp] theorem writeAll_cons (blank v : Valuation μ) (a : Assignment μ)
    (as : List (Assignment μ)) :
    writeAll blank v (a :: as) =
      writeAll blank (Function.update v a.place (a.content blank)) as := rfl

/-- A place that none of the assignments changes keeps its content. -/
theorem writeAll_update_of_forall_ne (blank : Valuation μ) (as : List (Assignment μ))
    (v : Valuation μ) (p : Place) (x : p.Content μ) (h : ∀ a ∈ as, a.place ≠ p) :
    writeAll blank (Function.update v p x) as = Function.update (writeAll blank v as) p x := by
  induction as generalizing v with
  | nil => rfl
  | cons a as ih =>
    rw [List.forall_mem_cons] at h
    rw [writeAll_cons, writeAll_cons, Function.update_comm (Ne.symm h.1), ih _ h.2]

/-- What was at a place before does not matter if one of the assignments changes
    it. -/
theorem writeAll_update_of_mem (blank : Valuation μ) (as : List (Assignment μ))
    (v : Valuation μ) (p : Place) (x : p.Content μ) (h : ∃ a ∈ as, a.place = p) :
    writeAll blank (Function.update v p x) as = writeAll blank v as := by
  induction as generalizing v with
  | nil => simp at h
  | cons a as ih =>
    rw [writeAll_cons, writeAll_cons]
    by_cases ha : a.place = p
    · -- The assignment overwrites `x` at once.
      subst ha
      rw [Function.update_idem]
    · rw [Function.update_comm (Ne.symm ha)]
      apply ih
      obtain ⟨b, hb, hbp⟩ := h
      rcases List.mem_cons.mp hb with rfl | hb
      · exact absurd hbp ha
      · exact ⟨b, hb, hbp⟩

/-- Leaving out the assignments to one place matters at this place only. -/
theorem update_writeAll_filter (blank : Valuation μ) (as : List (Assignment μ))
    (v : Valuation μ) (p : Place) (x : p.Content μ) :
    Function.update (writeAll blank v (as.filter (·.place ≠ p))) p x =
      Function.update (writeAll blank v as) p x := by
  induction as generalizing v with
  | nil => rfl
  | cons a as ih =>
    by_cases ha : a.place = p
    · subst ha
      rw [List.filter_cons_of_neg (by simp), writeAll_cons, ← ih,
        writeAll_update_of_forall_ne _ _ _ _ _ (by simp), Function.update_idem]
    · rw [List.filter_cons_of_pos (by simpa using ha), writeAll_cons, writeAll_cons, ih]

end Valuation

@[simp] theorem Env.blank_restore {μ : Type} (env : Env μ) (undo : List (Assignment μ)) :
    (env.restore undo).blank = env.blank := by
  induction undo generalizing env with
  | nil => rfl
  | cons a undo ih => exact (ih (env.write a)).trans (blank_write env a)

/-- Restoring places is a chain of assignments. -/
theorem Env.lookup_restore {μ : Type} (env : Env μ) (undo : List (Assignment μ)) :
    (env.restore undo).lookup = Valuation.writeAll env.blank env.lookup undo := by
  induction undo generalizing env with
  | nil => rfl
  | cons a undo ih =>
    have hstep : env.restore (a :: undo) = (env.write a).restore undo := rfl
    rw [hstep, ih, blank_write, lookup_write, Valuation.writeAll_cons]

end TexEngine
