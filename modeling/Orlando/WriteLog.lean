import Mathlib.Data.List.Basic

/-!
# A key-value store as the log of its writes

A store in which every write of a key is atomic is the list of its writes, oldest first
(`WriteLog`). The value of a key is its last write (`WriteLog.get`), and the log also keeps the
values a key has had (`WriteLog.writesTo`).
-/

namespace Orlando

/-- The writes of a store, oldest first. -/
abbrev WriteLog (κ ν : Type*) := List (κ × ν)

namespace WriteLog

variable {κ ν : Type*} [DecidableEq κ]

/-- The values written under `k`, oldest first. -/
def writesTo (l : WriteLog κ ν) (k : κ) : List ν :=
  l.filterMap fun e => if e.1 = k then some e.2 else none

def get (l : WriteLog κ ν) (k : κ) : Option ν :=
  (writesTo l k).getLast?

def write (l : WriteLog κ ν) (k : κ) (v : ν) : WriteLog κ ν :=
  l ++ [(k, v)]

@[simp] theorem writesTo_write_self (l) (k : κ) (v : ν) :
    writesTo (write l k v) k = writesTo l k ++ [v] := by
  simp [writesTo, write]

@[simp] theorem writesTo_write_ne (l : WriteLog κ ν) {k k'} (v) (h : k' ≠ k) :
    writesTo (write l k' v) k = writesTo l k := by
  simp [writesTo, write, h]

@[simp] theorem get_write_self (l) (k : κ) (v : ν) :
    get (write l k v) k = some v := by
  simp [get]

@[simp] theorem get_write_ne (l : WriteLog κ ν) {k k'} (v) (h : k' ≠ k) :
    get (write l k' v) k = get l k := by
  simp [get, h]

theorem mem_of_get {l} {k : κ} {v : ν} (h : get l k = some v) : (k, v) ∈ l := by
  have hv := List.mem_of_getLast? h
  obtain ⟨⟨k', v'⟩, he, hk⟩ := List.mem_filterMap.mp hv
  by_cases hkk : k' = k
  · obtain rfl : v' = v := by simpa [hkk] using hk
    exact hkk ▸ he
  · simp [hkk] at hk

end WriteLog

end Orlando
