import Montage.Proofs.Graph.FlatCommand
import Montage.Proofs.Text.Separators

/-!
# What a leg says

The text of a leg names its input and its kind and lists its filters. Filters hold no character that
sets filters or legs off from each other (`avoids_pictureTexts`, `avoids_soundTexts`), so the text
of a leg settles all three (`Leg.Legible.content_eq`). The filters of a block's sound settle the
range and the speed (`eq_of_soundTexts_eq`), because a speed that is left out can only be one, and
with them the filters of its picture settle the changes of the picture
(`filters_eq_of_pictureTexts_eq`).
-/

set_option autoImplicit false
set_option relaxedAutoImplicit false

namespace Montage.Graph

open Media Registry Numeric Text

/-! ### Filters of a block -/

/-- The characters that set the parts of the text off from each other. -/
def separators : List Char := [',', ';', '[', ']']

variable {interpolate : Bool} {block other : Block}

theorem avoids_number (n : Nat) : Avoids separators (toString n) :=
  avoids_toString (by decide) n

theorem avoids_binary64 (x : Binary64) : Avoids separators x.toText :=
  avoids_toText (by decide) x

theorem avoids_visualText (filter : VisualFilter) : Avoids separators (visualText filter) := by
  cases filter with
  | rotate degrees =>
    simp only [visualText, avoids_append, avoids_binary64, and_true]
    decide
  | transpose direction =>
    simp only [visualText, avoids_append, avoids_number, and_true]
    decide
  | crop width height x y =>
    simp only [visualText, avoids_append, avoids_number, and_true]
    decide

theorem avoids_soundTexts (block : Block) : ∀ text ∈ soundTexts block, Avoids separators text := by
  unfold soundTexts
  split_ifs <;>
    simp only [List.forall_mem_append, List.forall_mem_cons, avoids_append, avoids_binary64,
      and_true, List.not_mem_nil, false_implies, implies_true] <;>
    decide

theorem avoids_pictureTexts (interpolate : Bool) (block : Block) :
    ∀ text ∈ pictureTexts interpolate block, Avoids separators text := by
  unfold pictureTexts
  rw [List.forall_mem_append]
  constructor
  · split_ifs <;>
      simp only [List.forall_mem_append, List.forall_mem_cons, avoids_append, avoids_binary64,
        and_true, List.not_mem_nil, false_implies, implies_true] <;>
      decide
  · exact List.forall_mem_map.mpr fun filter _ ↦ avoids_visualText filter

/-- A whole number is settled by its text up to a colon. -/
theorem number_inj {m n : Nat} {rest rest' : List Char}
    (h : (toString m).toList ++ ':' :: rest = (toString n).toList ++ ':' :: rest') :
    m = n ∧ rest = rest' :=
  value_append_cons_inj toString_injective (avoids_toString (by decide)) h

/-- A binary64 number is settled by its text up to a colon. -/
theorem binary64_inj {x y : Binary64} {rest rest' : List Char}
    (h : x.toText.toList ++ ':' :: rest = y.toText.toList ++ ':' :: rest') :
    x = y ∧ rest = rest' :=
  value_append_cons_inj Binary64.toText_injective (avoids_toText (by decide)) h

/-- The letter that the text of a change of the picture starts with. -/
def initial : VisualFilter → Char
  | .rotate _ => 'r'
  | .transpose _ => 't'
  | .crop _ _ _ _ => 'c'

theorem head?_visualText (filter : VisualFilter) :
    (visualText filter).toList.head? = some (initial filter) := by
  cases filter <;> simp only [visualText, String.toList_append] <;> rfl

/-- Different changes of the picture have different texts. -/
theorem visualText_injective : Function.Injective visualText := by
  intro filter other h
  have hinitial : initial filter = initial other := by
    rw [← Option.some.injEq, ← head?_visualText, h, head?_visualText]
  have hchars := congrArg String.toList h
  cases filter with
  | rotate degrees =>
    cases other with
    | rotate degrees' =>
      simp only [visualText, String.toList_append, List.append_cancel_left_eq,
        List.append_cancel_right_eq, String.toList_inj] at hchars
      rw [Binary64.toText_injective hchars]
    | _ => simp [initial] at hinitial
  | transpose direction =>
    cases other with
    | transpose direction' =>
      simp only [visualText, String.toList_append, List.append_cancel_left_eq,
        String.toList_inj] at hchars
      rw [toString_injective hchars]
    | _ => simp [initial] at hinitial
  | crop width height x y =>
    cases other with
    | crop width' height' x' y' =>
      have hheight : ":h=".toList = ':' :: ['h', '='] := rfl
      have hleft : ":x=".toList = ':' :: ['x', '='] := rfl
      have htop : ":y=".toList = ':' :: ['y', '='] := rfl
      simp only [visualText, String.toList_append, List.append_assoc, List.append_cancel_left_eq,
        hheight, hleft, htop, List.cons_append, List.nil_append] at hchars
      obtain ⟨hwidth, hchars⟩ := number_inj hchars
      simp only [List.cons.injEq, true_and] at hchars
      obtain ⟨hheight, hchars⟩ := number_inj hchars
      simp only [List.cons.injEq, true_and] at hchars
      obtain ⟨hx, hchars⟩ := number_inj hchars
      simp only [List.cons.injEq, true_and, String.toList_inj] at hchars
      rw [hwidth, hheight, hx, toString_injective hchars]
    | _ => simp [initial] at hinitial

/-- Nothing but one is at the place of one. -/
theorem eq_one_of_agrees {speed : Binary64} (h : speed.agrees .one) : speed = .one := by
  obtain ⟨i, j, hi, hj, rfl⟩ := Binary64.agrees_iff.mp h
  obtain ⟨rank, hone, hpositive⟩ : ∃ rank : Fin (infinityRank + 1),
      Binary64.one = .number false rank ∧ 0 < rank.val := ⟨_, rfl, by decide +kernel⟩
  rw [hone] at hj ⊢
  cases speed with
  | nan => cases hi
  | number negative other =>
    cases negative with
    | true =>
      have := Option.some.inj (hi.trans hj.symm)
      omega
    | false =>
      have := Option.some.inj (hi.trans hj.symm)
      exact congrArg _ (Fin.ext (by omega))

/-- The texts of the sound settle the range and the speed. -/
theorem eq_of_soundTexts_eq (h : soundTexts block = soundTexts other) :
    block.start = other.start ∧ block.stop = other.stop ∧ block.speed = other.speed := by
  obtain ⟨htrim, hspeed⟩ := List.append_inj h rfl
  simp only [List.cons.injEq, and_true] at htrim
  have hchars := congrArg String.toList htrim
  have hend : ":end=".toList = ':' :: ['e', 'n', 'd', '='] := rfl
  simp only [String.toList_append, List.append_assoc, List.append_cancel_left_eq, hend,
    List.cons_append] at hchars
  obtain ⟨hstart, hchars⟩ := binary64_inj hchars
  simp only [List.cons.injEq, true_and, List.nil_append, String.toList_inj] at hchars
  refine ⟨hstart, Binary64.toText_injective hchars, ?_⟩
  split_ifs at hspeed with hone hone' hone'
  · rw [eq_one_of_agrees hone, eq_one_of_agrees hone']
  · have htext := congrArg String.toList (List.cons.inj hspeed).1
    simp only [String.toList_append, List.append_cancel_left_eq, String.toList_inj] at htext
    exact Binary64.toText_injective htext

/-- Apart from the range and the speed, the texts of the picture settle the changes of the
picture. -/
theorem filters_eq_of_pictureTexts_eq (hstart : block.start = other.start)
    (hstop : block.stop = other.stop) (hspeed : block.speed = other.speed)
    (h : pictureTexts interpolate block = pictureTexts interpolate other) :
    block.filters = other.filters := by
  rw [pictureTexts, pictureTexts, hstart, hstop, hspeed] at h
  exact (List.map_inj_right fun _ _ heq ↦ visualText_injective heq).mp (List.append_cancel_left h)

/-! ### Legs -/

/-- The text of a leg without the semicolon behind it. -/
def Leg.body (leg : Leg) (number : Nat) : String :=
  leafLabel leg.index leg.kind ++ chainText leg.filters ++ label number

/-- What the text of a leg says: the input, the kind of stream and the filters. -/
def Leg.content (leg : Leg) : Nat × StreamKind × List String :=
  (leg.index, leg.kind, leg.filters.map Filter.toText)

/-- The filters of a leg can be told apart. -/
def Leg.Legible (leg : Leg) : Prop :=
  leg.filters ≠ [] ∧ ∀ text ∈ leg.filters.map Filter.toText, Avoids separators text

variable {inputs : Registry Input} {order : List Key} {blocks more : List Block}

theorem legible_of_mem_legsOf {leg : Leg} (h : leg ∈ legsOf inputs interpolate order blocks) :
    leg.Legible := by
  obtain ⟨block, -, hleg⟩ := List.mem_flatMap.mp h
  rcases List.mem_pair.mp hleg with rfl | rfl
  · refine ⟨List.cons_ne_nil _ _, ?_⟩
    rw [Leg.ofBlock, map_toText_picture]
    exact avoids_pictureTexts interpolate block
  · refine ⟨List.cons_ne_nil _ _, ?_⟩
    rw [Leg.ofBlock, map_toText_sound]
    exact avoids_soundTexts block

theorem avoids_semicolon (n : Nat) : Avoids [';'] (toString n) := avoids_toString (by decide) n

theorem avoids_label (number : Nat) : Avoids [';'] (label number) := by
  simp only [label, avoids_append, avoids_semicolon, and_true]
  decide

theorem Leg.Legible.avoids_body {leg : Leg} (h : leg.Legible) (number : Nat) :
    Avoids [';'] (leg.body number) := by
  have hchain : Avoids [';'] (chainText leg.filters) := by
    refine Avoids.intercalate (by decide) fun text htext ↦ (h.2 text htext).mono (by decide)
  have htag : Avoids [';'] leg.kind.tag := by
    cases leg.kind <;> decide
  simp only [Leg.body, leafLabel, avoids_append, avoids_label, avoids_semicolon, hchain, htag,
    and_true]
  decide

/-- The text of a leg settles its content. -/
theorem Leg.Legible.content_eq {leg other : Leg} (h : leg.Legible) (h' : other.Legible)
    {number : Nat} (heq : leg.body number = other.body number) : leg.content = other.content := by
  have hchars := congrArg String.toList heq
  have hcolon : ":".toList = [':'] := rfl
  simp only [Leg.body, leafLabel, String.toList_append, List.append_cancel_right_eq] at hchars
  simp only [List.append_assoc, List.append_cancel_left_eq, hcolon, List.cons_append,
    List.nil_append] at hchars
  obtain ⟨hindex, hrest⟩ := number_inj hchars
  have htag (kind : StreamKind) : kind.tag.toList = [if kind = .video then 'v' else 'a'] := by
    cases kind <;> rfl
  rw [htag, htag, List.singleton_append, List.singleton_append, List.cons.injEq,
    List.append_right_inj, String.toList_inj] at hrest
  have hkind : leg.kind = other.kind := by
    have hletter := hrest.1
    cases hkind : leg.kind <;> cases hkind' : other.kind <;> simp [hkind, hkind'] at hletter ⊢
  have htexts := intercalate_inj (rfl : ",".toList = [','])
    (fun text htext ↦ (h.2 text htext).notMem (by decide))
    (fun text htext ↦ (h'.2 text htext).notMem (by decide))
    (by simpa using h.1) (by simpa using h'.1) hrest.2
  rw [Leg.content, Leg.content, hindex, hkind, htexts]

end Montage.Graph
