import Rdns.Core.Message

/-!
# Rdns — The EDNS option list

`rdns-core/src/edns.rs`: the OPT's RDATA as the options it holds. `walk_options` reads code, length
and data until the RDATA ends, and refuses a list that ends in the middle of an option.
-/

namespace Rdns.Core

open Rdns.Lib

def EDNS_OPTION_TCP_KEEPALIVE : UInt16 := 11

def walkOptions (rdata : Octets) : Except WireError (List EdnsOption) :=
  match rdata with
  | [] => .ok []
  | c₁ :: c₀ :: l₁ :: l₀ :: tail =>
    let len := (ofBe16 l₁ l₀).toNat
    if tail.length < len then .error (.truncated "EDNS option data" len tail.length)
    else
      match walkOptions (tail.drop len) with
      | .error e => .error e
      | .ok options => .ok (⟨ofBe16 c₁ c₀, tail.take len⟩ :: options)
  | short => .error (.truncated "an EDNS option header" 4 short.length)
termination_by rdata.length
decreasing_by
  simp only [List.length_drop, List.length_cons]
  omega

def Edns.options (edns : Edns) : Except WireError (List EdnsOption) := walkOptions edns.rdata

def Edns.option (edns : Edns) (code : UInt16) : Except WireError (Option Octets) :=
  edns.options.map fun options => (options.find? fun option => option.code = code).map EdnsOption.data

theorem walkOptions_cons (code : UInt16) {data : Octets} (hlen : data.length ≤ 65535) (rest : Octets) :
    walkOptions (be16 code ++ be16 (UInt16.ofNat data.length) ++ data ++ rest) =
      (walkOptions rest).map fun options => ⟨code, data⟩ :: options := by
  have hnat := toNat_ofNat_u16 hlen
  rw [walkOptions.eq_def]
  simp only [be16, List.cons_append, List.nil_append, ofBe16_be16]
  rw [hnat, if_neg (by rw [List.length_append]; omega), List.drop_left, List.take_left]
  cases walkOptions rest <;> rfl

/-- **Options behind a well-formed list** are read behind it. -/
theorem walkOptions_append {rdata : Octets} {options : List EdnsOption} (h : walkOptions rdata = .ok options)
    (more : Octets) :
    walkOptions (rdata ++ more) = (walkOptions more).map fun others => options ++ others := by
  induction hn : rdata.length using Nat.strongRecOn generalizing rdata options with
  | ind n ih =>
    subst hn
    unfold walkOptions at h
    split at h
    · cases h
      rw [List.nil_append]
      cases walkOptions more <;> rfl
    · rename_i c₁ c₀ l₁ l₀ tail
      simp only at h
      split at h
      case isTrue => cases h
      case isFalse hfits =>
        cases htail : walkOptions (tail.drop (ofBe16 l₁ l₀).toNat) with
        | error e =>
          rw [htail] at h
          cases h
        | ok others =>
          rw [htail] at h
          cases h
          have hdrop := ih _ (by rw [List.length_drop]; simp only [List.length_cons]; omega) htail rfl
          rw [List.cons_append, List.cons_append, List.cons_append, List.cons_append, walkOptions.eq_def]
          simp only
          rw [if_neg (by rw [List.length_append]; omega), List.drop_append_of_le_length (by omega),
            List.take_append_of_le_length (by omega), hdrop]
          cases walkOptions more <;> rfl
    · cases h

end Rdns.Core
