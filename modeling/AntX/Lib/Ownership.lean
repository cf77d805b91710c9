import Mathlib.Tactic.Common

/-! Exclusive references: whatever is referenced is marked as taken, and no two references lead to
the same thing. -/

namespace AntX.Lib

variable {ι β : Type*}

structure Owned (ref : ι → β → Prop) (marked : β → Prop) : Prop where
  taken : ∀ {i b}, ref i b → marked b
  once : ∀ {i j b}, ref i b → ref j b → i = j

namespace Owned

variable {ref ref' : ι → β → Prop} {marked marked' : β → Prop} {i : ι} {b : β}

theorem attach (h : Owned ref marked) (hb : ¬ marked b) (hb' : marked' b)
    (hmarked : ∀ c, marked c → marked' c) (href : ∀ j c, ref' j c → ref j c ∨ j = i ∧ c = b) :
    Owned ref' marked' where
  taken {j c} hc := by
    rcases href j c hc with hold | ⟨rfl, rfl⟩
    · exact hmarked c (h.taken hold)
    · exact hb'
  once {j k c} hj hk := by
    rcases href j c hj with hj | ⟨rfl, rfl⟩
    · rcases href k c hk with hk | ⟨rfl, rfl⟩
      · exact h.once hj hk
      · exact absurd (h.taken hj) hb
    · rcases href k c hk with hk | ⟨rfl, _⟩
      · exact absurd (h.taken hk) hb
      · rfl

theorem release (h : Owned ref marked) (href : ∀ j c, ref' j c → ref j c)
    (hmarked : ∀ c, marked c → marked' c ∨ ∃ j, ref j c ∧ ¬ ref' j c) : Owned ref' marked' where
  taken {j c} hc := by
    rcases hmarked c (h.taken (href j c hc)) with hkept | ⟨k, hk, hgone⟩
    · exact hkept
    · obtain rfl := h.once (href j c hc) hk
      exact absurd hc hgone
  once hj hk := h.once (href _ _ hj) (href _ _ hk)

end Owned

end AntX.Lib
