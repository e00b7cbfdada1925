import DraginoFwd.Lib.Like
import Mathlib.Data.List.AList

/-!
# The database

The table `gwdb` is a map from keys to values, both texts; a key is a family and a key of the caller
between slashes. The operations are those of `db.c` where SQLite reports no error.
-/

set_option autoImplicit false

namespace DraginoFwd.Db

open DraginoFwd.Lib.Like

/-- The table: `key` is its primary key. -/
abbrev Gwdb := AList fun _ : List Char => String

/-- `fullkey`, the text of `"/%s/%s"` -/
def fullKey (family key : List Char) : List Char := '/' :: (family ++ '/' :: key)

/-- `lgw_db_put`: insert or replace. -/
def lgwDbPut (db : Gwdb) (family key : List Char) (value : String) : Gwdb :=
  db.insert (fullKey family key) value

/-- `lgw_db_get`, with `none` for the code -1 -/
def lgwDbGet (db : Gwdb) (family key : List Char) : Option String := db.lookup (fullKey family key)

/-- `lgw_db_key_exist`, where the key is not empty: `key LIKE '%' || '/' || ?` -/
def lgwDbKeyExist (db : Gwdb) (key : List Char) : Bool := db.keys.any (like ('%' :: '/' :: key))

theorem lgwDbGet_eq_none {db : Gwdb} {family key : List Char} :
    lgwDbGet db family key = none ↔ fullKey family key ∉ db := AList.lookup_eq_none

theorem mem_of_lgwDbGet {db : Gwdb} {family key : List Char} {value : String}
    (h : lgwDbGet db family key = some value) : fullKey family key ∈ db :=
  AList.lookup_isSome.1 (Option.isSome_of_eq_some h)

theorem mem_lgwDbPut {db : Gwdb} {family key k : List Char} {value : String} :
    k ∈ lgwDbPut db family key value ↔ k = fullKey family key ∨ k ∈ db := AList.mem_insert db

@[simp] theorem lgwDbGet_lgwDbPut (db : Gwdb) (family key : List Char) (value : String) :
    lgwDbGet (lgwDbPut db family key value) family key = some value := AList.lookup_insert db

/-- The other keys keep their values. -/
theorem lgwDbGet_lgwDbPut_ne (db : Gwdb) {family key family' key' : List Char} (value : String)
    (h : fullKey family' key' ≠ fullKey family key) :
    lgwDbGet (lgwDbPut db family key value) family' key' = lgwDbGet db family' key' :=
  AList.lookup_insert_ne h

theorem toLower_eq_slash {c : Char} (h : c.toLower = '/') : c = '/' := by
  delta Char.toLower at h
  split at h
  · next hupper =>
    -- an upper-case letter becomes a lower-case one
    exfalso
    have hval : (c.val + ('a'.val - 'A'.val)).toNat = 47 := congrArg (fun c => c.val.toNat) h
    have hshift : ('a'.val - 'A'.val).toNat = 32 := rfl
    have hlow : 65 ≤ c.val.toNat := UInt32.le_iff_toNat_le.1 hupper.1
    have hhigh : c.val.toNat ≤ 90 := UInt32.le_iff_toNat_le.1 hupper.2
    rw [UInt32.toNat_add, hshift] at hval
    omega
  · exact h

/-- Some key has a slash and behind it, up to its end, a text that is like the one that is searched
for. -/
theorem lgwDbKeyExist_iff {db : Gwdb} {key : List Char} :
    lgwDbKeyExist db key = true ↔
      ∃ k ∈ db.keys, ∃ rest, '/' :: rest <:+ k ∧ like key rest = true := by
  rw [lgwDbKeyExist, List.any_eq_true]
  apply exists_congr
  intro k
  rw [like_percent]
  apply and_congr_right
  intro _
  constructor
  · rintro ⟨text, hsuffix, hlike⟩
    obtain ⟨d, rest, rfl, hslash | hslash, hlike⟩ := (like_cons (by decide)).1 hlike
    · exact absurd hslash (by decide)
    · rw [toLower_eq_slash hslash.symm] at hsuffix
      exact ⟨rest, hsuffix, hlike⟩
  · rintro ⟨rest, hsuffix, hlike⟩
    exact ⟨_, hsuffix, (like_cons (by decide)).2 ⟨'/', rest, rfl, Or.inr rfl, hlike⟩⟩

end DraginoFwd.Db
