import Detour.Fault

/-! Method signatures such as `(ILjava/lang/String;)V`. An array of any depth is one reference; a class
name runs to the next semicolon or to the end of the text; any other character is a kind of its own. Which
kinds there are is not checked here; only that of the result has to take one byte, because the parameters
of a shorty start at its second. -/
namespace Detour

inductive TypeTerm
  | named (className : String)
  | array
  | letter (c : Char)
  deriving DecidableEq, Repr

structure Signature where
  params : List TypeTerm
  result : TypeTerm
  deriving DecidableEq, Repr

namespace TypeTerm

def kindChar : TypeTerm → Char
  | named _ | array => 'L'
  | letter c => c

def afterName (cs : List Char) : List Char := (cs.dropWhile (· ≠ ';')).drop 1

def take? : List Char → Option (TypeTerm × List Char)
  | [] => none
  | 'L' :: cs => some (named (String.ofList (cs.takeWhile (· ≠ ';'))), afterName cs)
  | '[' :: cs =>
    match cs.dropWhile (· = '[') with
    | 'L' :: element => some (array, afterName element)
    | _ :: rest => some (array, rest)
    | [] => some (array, [])
  | c :: cs => some (letter c, cs)

theorem dropWhileLength (p : Char → Bool) (cs : List Char) : (cs.dropWhile p).length ≤ cs.length :=
  (List.dropWhile_sublist p).length_le

theorem afterNameLength (cs : List Char) : (afterName cs).length ≤ cs.length := by
  have h := dropWhileLength (· ≠ ';') cs
  simp only [afterName, List.length_drop]
  omega

theorem takeShorter {cs term rest} (h : take? cs = some (term, rest)) : rest.length < cs.length := by
  unfold take? at h
  split at h
  next => contradiction
  next cs =>
    cases h
    exact Nat.lt_succ_of_le (afterNameLength cs)
  next cs =>
    have bound := dropWhileLength (· = '[') cs
    split at h
    next element shape =>
      cases h
      have last := afterNameLength element
      rw [shape] at bound
      simp only [List.length_cons] at bound ⊢
      omega
    next shape =>
      cases h
      rw [shape] at bound
      simp only [List.length_cons] at bound ⊢
      omega
    next => cases h; simp
  next => cases h; simp

def takeAll (cs : List Char) : List TypeTerm :=
  match _h : take? cs with
  | none => []
  | some (term, rest) => term :: takeAll rest
termination_by cs.length
decreasing_by exact takeShorter (by assumption)

end TypeTerm

namespace Signature

def parse (text : String) : Except Fault Signature :=
  match text.toList with
  | '(' :: body =>
    if body.contains ')' then
      match TypeTerm.take? ((body.dropWhile (· ≠ ')')).drop 1) with
      | none => .error (.truncatedSignature text)
      | some (result, _) =>
        if 1 < result.kindChar.utf8Size then .error (.wideResult result.kindChar)
        else .ok ⟨TypeTerm.takeAll (body.takeWhile (· ≠ ')')), result⟩
    else .error (.badSignature text)
  | _ => .error (.badSignature text)

def shortyText (s : Signature) : String :=
  String.ofList (s.result.kindChar :: s.params.map TypeTerm.kindChar)

end Signature
end Detour
