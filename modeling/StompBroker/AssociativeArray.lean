import StompBroker.CString

/-! The header map: a height balanced search tree keyed by strings.
A null pointer is `nil`; the parent pointer that the rotations write through is the
returned subtree. -/
namespace StompBroker.AssociativeArray
open CString

inductive AaItem
  | nil
  | node (height : ℕ) (key value : CStr) (left right : AaItem)
  deriving DecidableEq, Repr

def AaItem.height : AaItem → ℕ
  | .nil => 0
  | .node h _ _ _ _ => h

def aaItemCreate (key value : CStr) : AaItem := .node 1 key value .nil .nil

def maxH : AaItem → ℕ
  | .nil => 0
  | .node _ _ _ left right => if right.height > left.height then right.height else left.height

def balance : AaItem → ℤ
  | .nil => 0
  | .node _ _ _ left right => (right.height : ℤ) - left.height

def setHeight : AaItem → AaItem
  | .nil => .nil
  | .node h k v l r => .node (maxH (.node h k v l r) + 1) k v l r

/-- Only called with a left child; the node itself is lowered first, then the new root. -/
def aaRotateRight : AaItem → AaItem
  | .node h k v (.node th tk tv tl tr) r => setHeight (.node th tk tv tl (setHeight (.node h k v tr r)))
  | a => a

def aaRotateLeft : AaItem → AaItem
  | .node h k v l (.node th tk tv tl tr) => setHeight (.node th tk tv (setHeight (.node h k v l tl)) tr)
  | a => a

def aaRotateRightLeft : AaItem → AaItem
  | .node h k v l r => aaRotateLeft (.node h k v l (aaRotateRight r))
  | a => a

def aaRotateLeftRight : AaItem → AaItem
  | .node h k v l r => aaRotateRight (.node h k v (aaRotateLeft l) r)
  | a => a

/-- What follows an insertion below a node: new height, then at most one rotation. -/
def rebalance : AaItem → AaItem
  | .nil => .nil
  | .node h k v l r =>
      let a := setHeight (.node h k v l r)
      if balance a < -1 then
        if balance l ≤ 0 then aaRotateRight a else aaRotateLeftRight a
      else if balance a > 1 then
        if balance r ≥ 0 then aaRotateLeft a else aaRotateRightLeft a
      else a

def aaSetOrPutItem (key value : CStr) : AaItem → AaItem × Bool
  | .nil => (aaItemCreate key value, true)
  | .node h k v l r =>
      match strcmp key k with
      | .eq => (.node h k value l r, false)
      | .lt =>
          let p := aaSetOrPutItem key value l
          if p.2 then (rebalance (.node h k v p.1 r), true) else (.node h k v p.1 r, false)
      | .gt =>
          let p := aaSetOrPutItem key value r
          if p.2 then (rebalance (.node h k v l p.1), true) else (.node h k v l p.1, false)

def aaPut (root : AaItem) (key value : CStr) : AaItem := (aaSetOrPutItem key value root).1

/-- Depth of a key counted from one, zero when it is missing. -/
def aaHas (key : CStr) : AaItem → ℕ
  | .nil => 0
  | .node _ k _ l r =>
      match strcmp key k with
      | .eq => 1
      | .lt => if aaHas key l ≠ 0 then aaHas key l + 1 else 0
      | .gt => if aaHas key r ≠ 0 then aaHas key r + 1 else 0

def aaGet (key : CStr) : AaItem → AaItem
  | .nil => .nil
  | .node h k v l r =>
      match strcmp key k with
      | .eq => .node h k v l r
      | .lt => aaGet key l
      | .gt => aaGet key r

/-- Puts the pairs of a subtree in preorder; missing children are skipped. -/
def aaMergeItems (target : AaItem) : AaItem → AaItem
  | .nil => target
  | .node _ k v l r => aaMergeItems (aaMergeItems (aaPut target k v) l) r

def aaMerge (target : AaItem) : AaItem → Option AaItem
  | .nil => none
  | .node h k v l r => some (aaMergeItems target (.node h k v l r))

/-- Header lines `key:value` in preorder, separated by newlines. -/
def aaGetStrBuf (buffer : Option CStr) : AaItem → Option CStr
  | .nil => buffer
  | .node _ k v l r =>
      let line := k ++ [colon] ++ v
      let here := match buffer with
        | none => line
        | some b => b ++ [nl] ++ line
      aaGetStrBuf (aaGetStrBuf (some here) l) r

def aaCreateStrRepresentation (aa : AaItem) : CStr := (aaGetStrBuf none aa).getD []

theorem aaRotateRight_ne_nil {a : AaItem} (h : a ≠ .nil) : aaRotateRight a ≠ .nil := by
  unfold aaRotateRight
  split
  · simp [setHeight]
  · exact h

theorem aaRotateLeft_ne_nil {a : AaItem} (h : a ≠ .nil) : aaRotateLeft a ≠ .nil := by
  unfold aaRotateLeft
  split
  · simp [setHeight]
  · exact h

theorem rebalance_ne_nil {h : ℕ} {k v : CStr} {l r : AaItem} :
    rebalance (.node h k v l r) ≠ .nil := by
  have hs : setHeight (.node h k v l r) ≠ .nil := by simp [setHeight]
  simp only [rebalance]
  split
  · split
    · exact aaRotateRight_ne_nil hs
    · exact aaRotateRight_ne_nil (by simp)
  · split
    · split
      · exact aaRotateLeft_ne_nil hs
      · exact aaRotateLeft_ne_nil (by simp)
    · exact hs

theorem aaPut_ne_nil (root : AaItem) (key value : CStr) : aaPut root key value ≠ .nil := by
  unfold aaPut
  cases root with
  | nil => simp [aaSetOrPutItem, aaItemCreate]
  | node h k v l r =>
    simp only [aaSetOrPutItem]
    split
    · simp
    · split_ifs
      · exact rebalance_ne_nil
      · simp
    · split_ifs
      · exact rebalance_ne_nil
      · simp

end StompBroker.AssociativeArray
