import Horizon.Properties.Listings

/-!
# Horizon — searching a directory (`VFS_FSFIND`)

The server goes through a directory with `fat_enumerate` until it comes to the name. It tests the
index that it has got last for `>= 0`, which is always true of a `size_t`. So a name that is not in
the directory is answered like any other, with a file that holds whatever has been found last.
-/

namespace Horizon

open StateError

variable {vol : FatVolume} {s s' t : FatCaches} {index next : Word} {parent : Option FatFile}
  {found : List (Word × FatFile)} {name : List Byte} {r : Word × FatFile} {fuel rounds : ℕ}

/-- The reply for the first file of that name, if there is one. -/
def FindReply.Right (address : Word) (reply : FindReply) : Option (Word × FatFile) → Prop
  | none => reply.code = -1 ∧ reply.kept = none
  | some r => reply.code = address ∧ reply.arg0 = r.2.type ∧ reply.kept = some r.2

theorem searchLoop_found (hyields : vol.Yields fuel parent index s found next t)
    (hfind : found.find? (·.2.name = name) = some r) (hrounds : found.length < rounds)
    (file : FatFile) : ∃ s', searchLoop vol fuel parent name rounds index file s = .ok r s' := by
  induction hyields generalizing rounds file with
  | nil => cases hfind
  | @cons _ _ next file' _ t _ _ hfound _ ih =>
    obtain ⟨rounds, rfl⟩ := Nat.exists_eq_succ_of_ne_zero (Nat.ne_zero_of_lt hrounds)
    rw [searchLoop, bind_apply_of_ok hfound]
    simp only [List.find?_cons] at hfind ⊢
    by_cases hname : file'.name = name
    · simp only [hname, decide_true] at hfind
      obtain rfl := Option.some.inj hfind
      exact ⟨t, by rw [if_pos hname]; rfl⟩
    · simp only [hname, decide_false] at hfind
      rw [if_neg hname]
      exact ih hfind (Nat.lt_of_succ_lt_succ hrounds) file'

theorem searchLoop_missed (hyields : vol.Yields fuel parent index s found next t)
    (hend : fatEnumerate vol fuel parent next t = .ok none s')
    (hnone : ∀ r ∈ found, r.2.name ≠ name) (hrounds : found.length < rounds) (file : FatFile) :
    ∃ file', searchLoop vol fuel parent name rounds index file s = .ok (-1, file') s' := by
  induction hyields generalizing rounds file with
  | nil =>
    obtain ⟨rounds, rfl⟩ := Nat.exists_eq_succ_of_ne_zero (Nat.ne_zero_of_lt hrounds)
    refine ⟨file, ?_⟩
    rw [searchLoop, bind_apply_of_ok hend]
    rfl
  | @cons _ _ _ file' _ _ _ _ hfound _ ih =>
    obtain ⟨rounds, rfl⟩ := Nat.exists_eq_succ_of_ne_zero (Nat.ne_zero_of_lt hrounds)
    obtain ⟨hname, hrest⟩ := List.forall_mem_cons.mp hnone
    rw [searchLoop, bind_apply_of_ok hfound]
    simp only
    rw [if_neg hname]
    exact ih hend hrest (Nat.lt_of_succ_lt_succ hrounds) file'

/-- Whatever the search has come to, its file is the reply. -/
theorem handleFind_apply {address iter : Word} {file file' : FatFile}
    (hsearch : searchLoop vol fuel parent name rounds 0 file s = .ok (iter, file') s') :
    handleFind vol fuel rounds parent name address file s =
      .ok { code := address, arg0 := file'.type, kept := some file' } s' := by
  rw [handleFind, bind_apply_of_ok hsearch]
  simp only
  rw [if_pos (Int.natCast_nonneg _)]
  rfl

/-- The reply is right exactly if the name is in the directory. -/
theorem handleFind_right_iff (hyields : vol.Yields fuel parent 0 s found next t)
    (hall : (∃ s', fatEnumerate vol fuel parent next t = .ok none s') ∨
      ∃ r ∈ found, r.2.name = name)
    (hrounds : found.length < rounds) (address : Word) (file : FatFile) :
    (∃ reply s', handleFind vol fuel rounds parent name address file s = .ok reply s' ∧
        reply.Right address (found.find? (·.2.name = name))) ↔
      ∃ r ∈ found, r.2.name = name := by
  cases hfind : found.find? (·.2.name = name) with
  | some r =>
    obtain ⟨s', hsearch⟩ := searchLoop_found hyields hfind hrounds file
    have hname : r.2.name = name := by simpa using List.find?_some hfind
    exact iff_of_true ⟨_, s', handleFind_apply hsearch, rfl, rfl, rfl⟩
      ⟨r, List.mem_of_find?_eq_some hfind, hname⟩
  | none =>
    have hnone : ∀ r ∈ found, r.2.name ≠ name := fun r hr =>
      fun hname => List.find?_eq_none.mp hfind r hr (decide_eq_true hname)
    refine iff_of_false ?_ fun ⟨r, hr, hname⟩ => hnone r hr hname
    rintro ⟨reply, s', hreply, hright⟩
    obtain ⟨s'', hend⟩ := hall.resolve_right fun ⟨r, hr, hname⟩ => hnone r hr hname
    obtain ⟨file', hsearch⟩ := searchLoop_missed hyields hend hnone hrounds file
    -- The file is kept.
    rw [handleFind_apply hsearch] at hreply
    obtain rfl := (EStateM.Result.ok.inj hreply).1
    cases hright.2

/-- `readme.txt`. -/
def readmeBytes : List Byte := [0x72, 0x65, 0x61, 0x64, 0x6D, 0x65, 0x2E, 0x74, 0x78, 0x74]

/-- The only file of a directory is found. -/
theorem readme_found :
    ∃ reply s', handleFind readmeVolume 2 2 none readmeBytes 0x1000 rootDirectory {} =
        .ok reply s' ∧ reply.code = 0x1000 ∧ reply.kept.map FatFile.name = some readmeBytes := by
  obtain ⟨file, t, hfound, hname⟩ : ∃ file t,
      fatEnumerate readmeVolume 2 none 0 {} = .ok (some (32, file)) t ∧
        file.name = readmeBytes := ⟨_, _, rfl, by decide⟩
  have hyields : readmeVolume.Yields 2 none 0 {} [(32, file)] 32 t := .cons hfound (.nil _ _)
  have hmem : ∃ r ∈ [((32 : Word), file)], r.2.name = readmeBytes :=
    ⟨_, List.mem_singleton.mpr rfl, hname⟩
  obtain ⟨reply, s', hreply, hright⟩ := (handleFind_right_iff hyields (Or.inr hmem)
    (Nat.lt_succ_self 1) 0x1000 rootDirectory).mpr hmem
  have hfind : [((32 : Word), file)].find? (·.2.name = readmeBytes) = some (32, file) := by
    simp [hname]
  rw [hfind] at hright
  refine ⟨reply, s', hreply, hright.1, ?_⟩
  rw [hright.2.2, Option.map_some, hname]

/-- Another name is answered with the same file. -/
theorem other_name_found :
    ∃ file s₁ s₂ reply s',
      fatEnumerate readmeVolume 2 none 0 {} = .ok (some (32, file)) s₁ ∧
      fatEnumerate readmeVolume 2 none 32 s₁ = .ok none s₂ ∧ file.name = readmeBytes ∧
      handleFind readmeVolume 2 2 none [0x78] 0x1000 rootDirectory {} = .ok reply s' ∧
      reply.code = 0x1000 ∧ reply.kept = some file :=
  ⟨_, _, _, _, _, rfl, rfl, by decide, rfl, rfl, rfl⟩

end Horizon
