/-!
# Error codes — the bare form of a code that a service writes

A service may write a code inside the name space it belongs to, which ends in a number sign, and
may put an address behind it, which begins with a colon. `ErrorCode.bare` is the code without
either: the address goes first, so a number sign inside an address counts for nothing, and of the
rest only the first number sign ends a name space.

Main statements: a code with neither mark is its own bare form (`bare_eq_self`), and both additions
come off a code that they were put around (`bare_qualified`).
-/

namespace Depot.ErrorCode

/-- Characters up to the first colon. -/
def dropAddress (cs : List Char) : List Char := cs.takeWhile (· != ':')

/-- Characters behind the first number sign, or all of them when there is none. -/
def dropSpace (cs : List Char) : List Char :=
  match cs.dropWhile (· != '#') with
  | [] => cs
  | _ :: name => name

/-- A code without its name space and without its address. -/
def bare (code : String) : String := String.ofList (dropSpace (dropAddress code.toList))

/-- A character that is not in a list differs from each that is. -/
private theorem bne_of_not_mem {mark : Char} {cs : List Char} (h : mark ∉ cs) :
    ∀ c ∈ cs, (c != mark) = true := fun c hc => by
  simpa using fun heq : c = mark => h (heq ▸ hc)

/-- An address comes off. -/
theorem dropAddress_append {cs : List Char} (h : ':' ∉ cs) (address : List Char) :
    dropAddress (cs ++ ':' :: address) = cs := by
  simp [dropAddress, List.takeWhile_append_of_pos (bne_of_not_mem h)]

/-- Characters without a colon have no address. -/
theorem dropAddress_eq_self {cs : List Char} (h : ':' ∉ cs) : dropAddress cs = cs := by
  have hrun : (cs ++ []).takeWhile (· != ':') = cs ++ [].takeWhile (· != ':') :=
    List.takeWhile_append_of_pos (bne_of_not_mem h)
  rwa [List.append_nil, List.takeWhile_nil, List.append_nil] at hrun

/-- Characters without a number sign have no name space. -/
theorem dropSpace_eq_self {cs : List Char} (h : '#' ∉ cs) : dropSpace cs = cs := by
  have hrun : (cs ++ []).dropWhile (· != '#') = [].dropWhile (· != '#') :=
    List.dropWhile_append_of_pos (bne_of_not_mem h)
  rw [List.append_nil, List.dropWhile_nil] at hrun
  simp [dropSpace, hrun]

/-- A name space comes off. -/
theorem dropSpace_append {space : List Char} (h : '#' ∉ space) (cs : List Char) :
    dropSpace (space ++ '#' :: cs) = cs := by
  simp [dropSpace, List.dropWhile_append_of_pos (bne_of_not_mem h)]

/-- A code with neither mark is its own bare form. -/
theorem bare_eq_self {code : String} (hcolon : ':' ∉ code.toList) (hsign : '#' ∉ code.toList) :
    bare code = code := by
  simp [bare, dropAddress_eq_self hcolon, dropSpace_eq_self hsign]

/-- The bare form of a code in a name space and with an address is the code. -/
theorem bare_qualified {space code address : List Char} (hspace : ':' ∉ space)
    (hsign : '#' ∉ space) (hcode : ':' ∉ code) :
    bare (String.ofList (space ++ '#' :: code ++ ':' :: address)) = String.ofList code := by
  have hcolon : ':' ∉ space ++ '#' :: code := by simp [hspace, hcode]
  unfold bare
  rw [String.toList_ofList, dropAddress_append hcolon, dropSpace_append hsign]

example : bare "a#b#c:d#e" = "b#c" ∧ bare "a:b#c" = "a" ∧ bare "a#" = "" := by decide

end Depot.ErrorCode
