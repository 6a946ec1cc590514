/-
  TexEngine.Proofs.Engine.Scoping.Places

  What assignments assign to.  Apart from the parameters of fonts, and from boxes that are
  yet to be made, the effect of every assignment is that a place is given a value: a
  quantity that can be assigned to is read with a value of its own kind.
-/
import TexEngine.Proofs.Engine.Scoping.Reading

namespace TexEngine

open Eng

/-- The effects of assignments. -/
inductive Effect.IsAssignment (x : Expander) : Effect → Prop where
  | set (s : Setting Meaning) (rest : Eng Unit) : IsAssignment x { setting := some s, rest }
  | fontParam (f : Font) (n : Int) (d : Dimen) : IsAssignment x
      { rest := modifyEnv fun env => { env with fonts := env.fonts.setParam f n d } }
  | box (kind : BoxKind) (t : Token) (deliver : Delivery) : IsAssignment x
      { rest := x.beginBox kind t deliver }

/-! ## Kinds of values -/

namespace Value

theorem kind_of_map {α : Type} (mk : α → Value) {k : ValueKind} (hk : ∀ a, (mk a).kind = k)
    {a : Except ArithFault α} {r : Value} (h : mk <$> a = .ok r) : r.kind = k := by
  cases a with
  | error f => contradiction
  | ok a =>
    obtain rfl := Except.ok.inj h
    exact hk a

variable {v w r : Value}

/-- Arithmetic does not change the kind of a value. -/
theorem kind_add (h : v.add w = .ok r) : r.kind = v.kind := by
  unfold add at h
  split at h
  · exact kind_of_map int (fun _ => rfl) h
  · exact kind_of_map dimen (fun _ => rfl) h
  · exact kind_of_map glue (fun _ => rfl) h
  · rw [Except.ok.inj h]

theorem kind_multiply {n : Int64} (h : v.multiply n = .ok r) : r.kind = v.kind := by
  unfold multiply at h
  split at h
  · exact kind_of_map int (fun _ => rfl) h
  · exact kind_of_map dimen (fun _ => rfl) h
  · exact kind_of_map glue (fun _ => rfl) h
  · rw [Except.ok.inj h]

theorem kind_divide {n : Int64} (h : v.divide n = .ok r) : r.kind = v.kind := by
  unfold divide at h
  split at h
  · exact kind_of_map int (fun _ => rfl) h
  · exact kind_of_map dimen (fun _ => rfl) h
  · exact kind_of_map glue (fun _ => rfl) h
  · rw [Except.ok.inj h]

end Value

namespace Eng

variable {α β : Type} {act : Eng α} {Q : α → Prop} {R : β → Prop}

/-- The results of a sequence, where the rest relies on those of the first part. -/
theorem Gives.after {f : α → Eng β} (h : Gives act Q) (hf : ∀ a, Q a → Gives (f a) R) :
    Gives (act >>= f) R := by
  intro m b m' hb
  obtain ⟨a, m₁, hact, hb⟩ := exists_of_bind_eq_ok hb
  exact hf a (h m a m₁ hact) m₁ b m' hb

theorem Gives.throw (f : Fault) : Gives (throw f : Eng α) Q :=
  fun _ _ _ h => nomatch h

theorem Gives.map {f : α → β} (h : ∀ a, R (f a)) : Gives (f <$> act) R :=
  .bind fun a => .pure (h a)

/-- The result of an operation of arithmetic. -/
theorem arith_gives (r : Except ArithFault α) : Gives (arith r) fun a => r = .ok a := by
  cases r with
  | ok a => exact .pure rfl
  | error f => exact .throw _

end Eng

namespace Cell

variable {cell : Cell}

theorem read_gives (cell : Cell) : Gives cell.read fun v => v.kind = cell.kind := by
  have hlevel : ∀ (level : Nat) (n : Int64),
      Gives (do observeLevel level; return .int n : Eng Value) fun v => v.kind = .int := by
    intro level n
    refine .bind fun _ => ?_
    exact .pure rfl
  refine .bind fun m => ?_
  cases cell with
  | register bank name => cases bank <;> exact .pure rfl
  | catcode c => exact .pure rfl
  | charCode table c => exact .pure rfl
  | fontDimen f n => exact .pure rfl
  | inputLine => exact hlevel _ _
  | groupLevel => exact hlevel _ _
  | conditionalLevel => exact hlevel _ _
  | constant n => exact .pure rfl

/-- Writing a value of its own kind into a cell that can be assigned to. -/
theorem effect_gives (x : Expander) (hmutable : cell.isMutable = true) {v : Value}
    (hkind : v.kind = cell.kind) : Gives (cell.effect v) (Effect.IsAssignment x) := by
  have hset : ∀ s, Gives (pure (.set s)) (Effect.IsAssignment x) := fun s => .pure (.set s _)
  -- The kind of the cell determines the kind of the value, so that no cell gets a value that it
  -- drops.
  cases cell with
  | register bank name =>
    cases bank <;> cases v <;> first | exact hset _ | contradiction
  | catcode c =>
    cases v with
    | int n =>
      unfold effect
      dsimp only
      split
      · exact hset _
      · exact .throw _
    | _ => contradiction
  | charCode table c =>
    cases v with
    | int n =>
      unfold effect
      dsimp only
      split
      · exact .throw _
      · exact hset _
    | _ => contradiction
  | fontDimen f n =>
    cases v with
    | dimen d => exact .pure (.fontParam f _ d)
    | _ => contradiction
  | _ => contradiction

end Cell

namespace Expander

variable {x : Expander}

/-! ## Kinds of effects -/

theorem resolveMutable_gives (μ : Meaning) :
    Gives (x.resolveMutable μ) fun cell => cell.isMutable = true := by
  refine .bind fun cell => ?_
  split
  · exact .pure ‹_›
  · exact .throw _

theorem scanValue_gives (k : ValueKind) : Gives (x.scanValue k) fun v => v.kind = k := by
  cases k with
  | int => exact .map fun _ => rfl
  | dimen => exact .map fun _ => rfl
  | glue => exact .map fun _ => rfl
  | toks => exact .map fun _ => rfl

theorem readQuantity_gives (μ : Meaning) :
    Gives (x.readQuantity μ) (Effect.IsAssignment x) :=
  (resolveMutable_gives μ).after fun cell hmutable => .bind fun _ =>
    (scanValue_gives cell.kind).after fun _ hkind => cell.effect_gives x hmutable hkind

theorem readArithmetic_gives (op : ArithOp) :
    Gives (x.readArithmetic op) (Effect.IsAssignment x) := by
  refine .bind fun t? => .bind fun t => .bind fun q => ?_
  split
  · exact .throw _
  · refine (resolveMutable_gives _).after fun cell hmutable => .bind fun _ => ?_
    refine cell.read_gives.after fun v hv => ?_
    extract_lets finish
    -- The result is of the kind of the old value, which is that of the cell.
    have hfinish : ∀ r : Except ArithFault Value, (∀ w, r = .ok w → w.kind = v.kind) →
        Gives (arith r >>= finish) (Effect.IsAssignment x) := fun r hr =>
      (arith_gives r).after fun w hw => cell.effect_gives x hmutable ((hr w hw).trans hv)
    cases op with
    | advance => exact .bind fun w => .bind fun _ => hfinish _ fun _ => Value.kind_add
    | multiply => exact .bind fun n => .bind fun _ => hfinish _ fun _ => Value.kind_multiply
    | divide => exact .bind fun n => .bind fun _ => hfinish _ fun _ => Value.kind_divide

theorem readBox_gives (global : Bool) : Gives (x.readBox global) (Effect.IsAssignment x) := by
  refine .bind fun n => .bind fun _ => .bind fun t? => .bind fun t => ?_
  have hbox : ∀ μ?, Gives (x.boxEffect (Count.text n) global t μ?) (Effect.IsAssignment x) := by
    intro μ?
    unfold boxEffect
    split
    · exact .pure (.box _ t _)
    · exact .bind fun k => .bind fun b => .pure (.set _ _)
    · exact .bind fun _ => .throw _
  split
  · exact .bind hbox
  · exact hbox none

/-- Every assignment gives a place a value, sets a parameter of a font or begins a box. -/
theorem read_gives (μ : Meaning) (t : Token) (global : Bool) :
    Gives (x.read μ t global) (Effect.IsAssignment x) := by
  have hset : ∀ s, Gives (pure (.set s)) (Effect.IsAssignment x) := fun s => .pure (.set s _)
  have hname : ∀ read : Token → Eng Meaning,
      Gives (x.readName read global) (Effect.IsAssignment x) := fun read =>
    .bind fun t => .bind fun _ => .bind fun _ => .bind fun μ => hset _
  unfold read
  split
  · rename_i a
    cases a with
    | arithmetic op => exact readArithmetic_gives op
    | define alwaysGlobal expand => exact .bind fun m => .bind fun t => .bind fun d => hset _
    | copyMeaning => exact .bind fun t => .bind fun source => .bind fun μ? => hset _
    | copyNextMeaning =>
      exact .bind fun t => .bind fun first? => .bind fun first => .bind fun second? =>
        .bind fun second => .bind fun _ => .bind fun μ? => hset _
    | charDef => exact hname _
    | registerDef bank => exact hname _
    | setBox => exact readBox_gives global
    | font => exact hname _
    | color => exact .bind fun c => hset _
    | textDirection => exact .bind fun d => .pure (.set _ _)
  · exact hset _
  · exact readQuantity_gives μ

end Expander

end TexEngine
