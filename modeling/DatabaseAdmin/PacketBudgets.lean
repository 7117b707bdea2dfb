import DatabaseAdmin.MysqlLoads
import Mathlib.Algebra.GroupWithZero.Nat

/-! How large the MySQL loader takes a row to be, and how much it lets gather before it sends. -/
namespace DatabaseAdmin.PacketBudgets
open CodeUnits WireCells MysqlLoads

def cellBytes : Cell → Nat
  | .null => 4
  | .string text => (octets text).length
  | .tagged _ v _ => v.length
  | _ => 8

def rowBytes (row : Row) : Nat := row.length * 3 + (row.map cellBytes).sum

def nearest (n : Nat) : Nat :=
  let unit := 2 ^ (n.log2 + 1 - 53)
  let low := n / unit
  let rest := n % unit
  (if unit < 2 * rest ∨ unit = 2 * rest ∧ low % 2 = 1 then low + 1 else low) * unit

-- 0.7 stands for 6305039478318694 / 2 ^ 53.
def budget (packet : Nat) : Nat := nearest (packet * 6305039478318694) / 2 ^ 53

example : budget (90 * 1024) = 64511 := by decide +kernel

end DatabaseAdmin.PacketBudgets
