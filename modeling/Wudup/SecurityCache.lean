import Wudup.SecurityStore

/-! What requests are shown of the stored scans, after any results are stored. -/
namespace Wudup
open Library

/-! What holds of the table whatever is stored. -/

section
variable {sha256 : Str → Str} {history : List ScanUpsert} {rows : List ScanRow}

/-- A row without its id. -/
def ScanRow.content (row : ScanRow) : ScanRow := { row with rowid := 0 }

structure TableOf (sha256 : Str → Str) (history : List ScanUpsert) (rows : List ScanRow) : Prop where
  ids : rows.Pairwise fun a b => a.rowid < b.rowid
  keys : (rows.map (·.cacheKey)).Nodup
  few : ∀ key, (rows.filter (·.requestKey = key)).length ≤ keepRows
  stored : ∀ key, ((rows.filter (·.requestKey = key)).map ScanRow.content).Sublist
    ((history.filter (·.requestKey sha256 = key)).map (·.row sha256 0))

/-- The rows before the older ones of a request are dropped. -/
def unpruned (sha256 : Str → Str) (rows : List ScanRow) (upsert : ScanUpsert) : List ScanRow :=
  let others := rows.filter (·.cacheKey ≠ upsert.cacheKey sha256)
  others ++ [upsert.row sha256 (Recent.nextId ScanRow.rowid others)]

theorem upsertScanResult_eq (rows : List ScanRow) (upsert : ScanUpsert) : upsertScanResult sha256 rows upsert =
    pruneCacheRows (unpruned sha256 rows upsert) (upsert.requestKey sha256) := rfl

theorem ids_unpruned (h : rows.Pairwise fun a b => a.rowid < b.rowid) (upsert : ScanUpsert) :
    (unpruned sha256 rows upsert).Pairwise fun a b => a.rowid < b.rowid := by
  rw [unpruned,List.pairwise_append]
  refine ⟨h.sublist List.filter_sublist,List.pairwise_singleton _ _,fun a ha b hb => ?_⟩
  rw [List.mem_singleton.mp hb]
  exact Recent.lt_nextId ha

theorem nodup_rowids (h : rows.Pairwise fun a b => a.rowid < b.rowid) : (rows.map ScanRow.rowid).Nodup :=
  List.pairwise_map.mpr (h.imp Nat.ne_of_lt)

theorem keys_unpruned (h : (rows.map (·.cacheKey)).Nodup) (upsert : ScanUpsert) :
    ((unpruned sha256 rows upsert).map (·.cacheKey)).Nodup := by
  rw [unpruned,List.map_append,List.map_singleton,List.nodup_append]
  refine ⟨h.sublist (List.filter_sublist.map _),List.nodup_singleton _,fun key hk other ho => ?_⟩
  obtain ⟨row,hrow,rfl⟩ := List.mem_map.mp hk
  rw [List.mem_singleton.mp ho]
  exact of_decide_eq_true (List.mem_filter.mp hrow).2

/-- The rows of the request that is stored, and of the others. -/
theorem filter_unpruned (upsert : ScanUpsert) (key : Str) :
    (unpruned sha256 rows upsert).filter (·.requestKey = key) =
      ((rows.filter (·.requestKey = key)).filter (·.cacheKey ≠ upsert.cacheKey sha256)) ++
        if upsert.requestKey sha256 = key then
          [upsert.row sha256 (Recent.nextId ScanRow.rowid (rows.filter (·.cacheKey ≠ upsert.cacheKey sha256)))]
        else [] := by
  rw [unpruned,List.filter_append,List.filter_comm]
  congr 1
  by_cases h : upsert.requestKey sha256 = key
  · rw [if_pos h]
    exact List.filter_cons_of_pos (decide_eq_true h)
  · rw [if_neg h]
    exact List.filter_cons_of_neg fun he => h (of_decide_eq_true he)

theorem filter_history (history : List ScanUpsert) (upsert : ScanUpsert) (key : Str) :
    (history ++ [upsert]).filter (·.requestKey sha256 = key) =
      history.filter (·.requestKey sha256 = key) ++ if upsert.requestKey sha256 = key then [upsert] else [] := by
  rw [List.filter_append]
  congr 1
  by_cases hkey : upsert.requestKey sha256 = key
  · rw [if_pos hkey]
    exact List.filter_cons_of_pos (decide_eq_true hkey)
  · rw [if_neg hkey]
    exact List.filter_cons_of_neg fun he => hkey (of_decide_eq_true he)

theorem stored_unpruned (h : TableOf sha256 history rows) (upsert : ScanUpsert) (key : Str) :
    (((unpruned sha256 rows upsert).filter (·.requestKey = key)).map ScanRow.content).Sublist
      (((history ++ [upsert]).filter (·.requestKey sha256 = key)).map (·.row sha256 0)) := by
  rw [filter_unpruned,filter_history,List.map_append,List.map_append]
  apply List.Sublist.append ((List.filter_sublist.map _).trans (h.stored key))
  split
  · exact .refl _
  · exact List.nil_sublist _

theorem TableOf.upsert (h : TableOf sha256 history rows) (upsert : ScanUpsert) :
    TableOf sha256 (history ++ [upsert]) (upsertScanResult sha256 rows upsert) := by
  have hids : (unpruned sha256 rows upsert).Pairwise fun a b => a.rowid < b.rowid := ids_unpruned h.ids upsert
  have hsub : (upsertScanResult sha256 rows upsert).Sublist (unpruned sha256 rows upsert) := Recent.prune_sublist
  refine ⟨hids.sublist hsub,(keys_unpruned h.keys upsert).sublist (hsub.map _),fun key => ?_,fun key => ?_⟩
  · by_cases hkey : upsert.requestKey sha256 = key
    · subst hkey
      exact Recent.length_filter_prune (nodup_rowids hids)
    · rw [upsertScanResult_eq,pruneCacheRows,Recent.filter_prune_other,filter_unpruned,if_neg hkey,List.append_nil]
      · exact List.filter_sublist.length_le.trans (h.few key)
      · intro row hrow
        rw [decide_eq_true_eq] at hrow
        rw [hrow]
        exact decide_eq_false (Ne.symm hkey)
  · exact ((hsub.filter _).map _).trans (stored_unpruned h upsert key)

theorem tableOf (sha256 : Str → Str) (history : List ScanUpsert) :
    TableOf sha256 history (scanTable sha256 history) := by
  induction history using List.reverseRecOn with
  | nil => exact ⟨.nil,List.nodup_nil,fun _ => Nat.zero_le _,fun _ => .slnil⟩
  | append_singleton history upsert ih =>
    rw [scanTable,List.foldl_append]
    exact ih.upsert upsert

theorem TableOf.exists_upsert (h : TableOf sha256 history rows) {row : ScanRow} (hrow : row ∈ rows) :
    ∃ upsert ∈ history, upsert.requestKey sha256 = row.requestKey ∧ row = upsert.row sha256 row.rowid := by
  have hmem : row.content ∈ (rows.filter (·.requestKey = row.requestKey)).map ScanRow.content :=
    List.mem_map_of_mem (List.mem_filter.mpr ⟨hrow,by simp⟩)
  obtain ⟨upsert,hu,he⟩ := List.mem_map.mp ((h.stored row.requestKey).subset hmem)
  obtain ⟨hu,hkey⟩ := List.mem_filter.mp hu
  refine ⟨upsert,hu,by simpa using hkey,?_⟩
  cases row
  cases he
  rfl

/-! With a clock that does not go back and no two results hashed to one key, the newest row of a request is the last
result stored for it. -/

theorem takeWhile_hashText {part : Str} (h : nul ∉ part) (parts : List Str) :
    (hashText (part :: parts)).takeWhile (· ≠ nul) = part := by
  rw [hashText,List.flatMap_cons,List.append_assoc,List.takeWhile_append_of_pos]
  · simp
  · intro c hc
    rw [decide_eq_true_eq]
    rintro rfl
    exact h hc

theorem hashText_head {part other : Str} {parts others : List Str} (hpart : nul ∉ part) (hother : nul ∉ other)
    (h : hashText (part :: parts) = hashText (other :: others)) : part = other := by
  rw [← takeWhile_hashText hpart parts,h,takeWhile_hashText hother]

/-- No two of the stored results have different hashed texts with one key. -/
def NoCollisions (sha256 : Str → Str) (history : List ScanUpsert) : Prop :=
  ∀ u ∈ history, ∀ v ∈ history, u.cacheKey sha256 = v.cacheKey sha256 → u.cacheText sha256 = v.cacheText sha256

/-- The results of a request are stored in the order of their timestamps. -/
def ClockAdvances (sha256 : Str → Str) (history : List ScanUpsert) : Prop :=
  ∀ key, (history.filter (·.requestKey sha256 = key)).Pairwise fun u v => u.timestamp ≤ v.timestamp

theorem chronological (hids : rows.Pairwise fun a b => a.rowid < b.rowid) (hclock : ClockAdvances sha256 history)
    {key : Str} (hstored : ((rows.filter (·.requestKey = key)).map ScanRow.content).Sublist
      ((history.filter (·.requestKey sha256 = key)).map (·.row sha256 0))) :
    Recent.Chronological ScanRow.updatedAt ScanRow.rowid (rows.filter (·.requestKey = key)) := by
  have hstamps : ((rows.filter (·.requestKey = key)).map ScanRow.content).Pairwise
      fun a b => a.updatedAt ≤ b.updatedAt := by
    apply List.Pairwise.sublist hstored
    exact List.pairwise_map.mpr (hclock key)
  exact (List.pairwise_map.mp hstamps).and (hids.sublist List.filter_sublist)

theorem ClockAdvances.left {upsert : ScanUpsert} (h : ClockAdvances sha256 (history ++ [upsert])) :
    ClockAdvances sha256 history := by
  intro key
  have := h key
  rw [List.filter_append] at this
  exact (List.pairwise_append.mp this).1

theorem NoCollisions.left {upsert : ScanUpsert} (h : NoCollisions sha256 (history ++ [upsert])) :
    NoCollisions sha256 history := fun u hu v hv =>
  h u (List.mem_append_left _ hu) v (List.mem_append_left _ hv)

/-- The last row of each request is the last result stored for it. -/
def Latest (sha256 : Str → Str) (history : List ScanUpsert) (rows : List ScanRow) : Prop :=
  ∀ key, (rows.filter (·.requestKey = key)).getLast?.map ScanRow.content =
    (history.filter (·.requestKey sha256 = key)).getLast?.map (·.row sha256 0)

theorem getLast?_lastOf {α : Type} {n : ℕ} (hn : 0 < n) (xs : List α) (x : α) :
    (Recent.lastOf n (xs ++ [x])).getLast? = some x := by
  rw [Recent.lastOf,List.length_append,List.length_singleton,List.drop_append_of_le_length (by omega)]
  exact List.getLast?_concat

theorem Latest.upsert (digests : ∀ text, nul ∉ sha256 text) (h : TableOf sha256 history rows)
    (hlatest : Latest sha256 history rows) {upsert : ScanUpsert} (hclash : NoCollisions sha256 (history ++ [upsert]))
    (hclock : ClockAdvances sha256 (history ++ [upsert])) :
    Latest sha256 (history ++ [upsert]) (upsertScanResult sha256 rows upsert) := by
  intro key
  have hunpruned := stored_unpruned h upsert key
  rw [filter_history,upsertScanResult_eq,pruneCacheRows]
  by_cases hkey : upsert.requestKey sha256 = key
  · subst hkey
    rw [Recent.filter_prune_of_chronological (chronological (ids_unpruned h.ids upsert) hclock hunpruned),
      filter_unpruned,if_pos rfl,if_pos rfl,getLast?_lastOf (by decide),List.getLast?_concat]
    rfl
  · rw [Recent.filter_prune_other,filter_unpruned,if_neg hkey,if_neg hkey,List.append_nil,List.append_nil,← hlatest key]
    · congr 2
      rw [List.filter_eq_self]
      intro row hrow
      obtain ⟨hrow,hrequest⟩ := List.mem_filter.mp hrow
      rw [decide_eq_true_eq] at hrequest ⊢
      intro hsame
      obtain ⟨found,hfound,hfoundKey,he⟩ := h.exists_upsert hrow
      have hcache : found.cacheKey sha256 = upsert.cacheKey sha256 := by
        rw [← hsame,he]
        rfl
      have htext := hclash found (List.mem_append_left _ hfound) upsert (by simp) hcache
      have hrequests := hashText_head (digests _) (digests _) htext
      exact hkey (hrequests.symm.trans (hfoundKey.trans hrequest))
    · intro row hrow
      rw [decide_eq_true_eq] at hrow
      rw [hrow]
      exact decide_eq_false (Ne.symm hkey)

theorem latest (digests : ∀ text, nul ∉ sha256 text) (hclash : NoCollisions sha256 history)
    (hclock : ClockAdvances sha256 history) : Latest sha256 history (scanTable sha256 history) := by
  induction history using List.reverseRecOn with
  | nil => exact fun _ => rfl
  | append_singleton history upsert ih =>
    rw [scanTable,List.foldl_append]
    exact (ih hclash.left hclock.left).upsert digests (tableOf sha256 history) hclash hclock

variable {rules : ScanRules}

theorem rowToScanInfo_content (row : ScanRow) (request : PendingSecurityRequest) :
    rowToScanInfo rules row.content request = rowToScanInfo rules row request := rfl

/-- After any results are stored, a request is shown the last one stored for it, with its own counts and findings and
with every advisory counted once, at its worst; and no request has more than five rows. -/
theorem scan_cache_serves_latest (lower : ∀ severity : FindingSeverity, rules.case.lower severity.text = severity.text)
    (digests : ∀ text, nul ∉ sha256 text) (collisions : NoCollisions sha256 history)
    (clock : ClockAdvances sha256 history) (request : PendingSecurityRequest) :
    cachedScanByRequest rules sha256 (scanTable sha256 history) request =
      (history.filter (·.requestKey sha256 = request.requestKey sha256)).getLast?.map (·.shown request) ∧
    ((scanTable sha256 history).filter (·.requestKey = request.requestKey sha256)).length ≤ 5 := by
  have htable := tableOf sha256 history
  refine ⟨?_,htable.few _⟩
  have hlast := congrArg (Option.map fun row => rowToScanInfo rules row request)
    (latest digests collisions clock (request.requestKey sha256))
  rw [Option.map_map,Option.map_map] at hlast
  rw [cachedScanByRequest,newestRow,Recent.newest_of_chronological (chronological htable.ids clock (htable.stored _))]
  refine hlast.trans ?_
  congr 1
  funext upsert
  exact rowToScanInfo_row lower sha256 upsert 0 request

theorem clockAdvances_of_sorted (h : history.Pairwise fun u v => u.timestamp ≤ v.timestamp) :
    ClockAdvances sha256 history := fun _ => h.sublist List.filter_sublist

/-- Scans of one image before and after its vulnerabilities were looked up anew. -/
def rescanned : PendingSecurityRequest × ScanUpsert × ScanUpsert :=
  let request := ⟨1,"a/b:2".toList,"a/b:2".toList,"sha256:d".toList,some ⟨"linux".toList,"amd64".toList,[]⟩⟩
  let finding : SecurityScanFinding := { vulnerabilityId := "CVE-1".toList, severity := .high }
  let subject : ResolvedImageSubject := {
    requestedRef := "a/b:2".toList
    reportedDigest := "sha256:d".toList
    os := "linux".toList
    architecture := "amd64".toList }
  (request,⟨request,subject,{ state := .complete },"1".toList⟩,
    ⟨request,subject,{ state := .complete, dbRevision := "2".toList, findings := [finding] },"2".toList⟩)

def droppedNuls (text : Str) : Str := text.filter (· ≠ nul)

def plainScanRules : ScanRules := ⟨plainCase,fun _ => [],fun _ => none⟩

theorem plainScanRules_lower (severity : FindingSeverity) :
    plainScanRules.case.lower severity.text = severity.text := by
  cases severity <;> decide

theorem scan_cache_serves_rescan :
    cachedScanByRequest plainScanRules droppedNuls (scanTable droppedNuls [rescanned.2.1,rescanned.2.2]) rescanned.1 =
      some (rescanned.2.2.shown rescanned.1) := by
  have hdigests : ∀ text, nul ∉ droppedNuls text := by simp [droppedNuls]
  have hcollisions : NoCollisions droppedNuls [rescanned.2.1,rescanned.2.2] := by
    unfold NoCollisions
    decide +kernel
  have hserved := (scan_cache_serves_latest plainScanRules_lower hdigests hcollisions
    (clockAdvances_of_sorted (by decide)) rescanned.1).1
  have hall : [rescanned.2.1,rescanned.2.2].filter (fun upsert => upsert.requestKey droppedNuls =
      rescanned.1.requestKey droppedNuls) = [rescanned.2.1,rescanned.2.2] := by
    rw [List.filter_eq_self]
    intro upsert hu
    rcases List.mem_cons.mp hu with rfl | hu
    · exact decide_eq_true rfl
    · rw [List.mem_singleton.mp hu]
      exact decide_eq_true rfl
  rw [hserved,hall]
  rfl

/-- What the fallback of a request is shown: the newest scan of the very image and digest, on a platform. -/
structure ShownFor (sha256 : Str → Str) (rows : List ScanRow) (request : PendingSecurityRequest) (upsert : ScanUpsert) :
    Prop where
  missing : ∀ row ∈ rows, row.requestKey ≠ request.requestKey sha256
  image : request.candidateImage ≠ [] ∧ upsert.subject.requestedRef = request.candidateImage
  digest : request.reportedDigest ≠ [] ∧ upsert.subject.reportedDigest = request.reportedDigest
  platform : ∀ platform, request.platform = some platform → upsert.subject.platform = platform.value
  unambiguous : request.platform = none → upsert.subject.platform ≠ [] ∧ ∀ row ∈ rows,
    row.requestedRef = request.candidateImage → row.reportedDigest = request.reportedDigest → row.platform ≠ [] →
      row.platform = upsert.subject.platform
  newest : ∀ row ∈ rows, row.requestedRef = request.candidateImage → row.reportedDigest = request.reportedDigest →
    row.platform = upsert.subject.platform → row.updatedAt ≤ upsert.timestamp

theorem newestRow_spec {row : ScanRow} (h : newestRow rows = some row) :
    row ∈ rows ∧ ∀ older ∈ rows, older.updatedAt ≤ row.updatedAt := by
  obtain ⟨hrow,hnewest⟩ := Recent.newest_spec h
  refine ⟨hrow,fun older ho => ?_⟩
  rcases Prod.Lex.toLex_le_toLex.mp (hnewest older ho) with hlt | heq
  · exact hlt.le
  · exact heq.1.le

/-- What is found on a platform. -/
theorem cachedScanOnPlatform_spec {request : PendingSecurityRequest} {platform : Str} {info : ShownScan}
    (h : cachedScanOnPlatform rules rows request platform = some info) :
    ∃ row ∈ rows, info = rowToScanInfo rules row request ∧ row.requestedRef = request.candidateImage ∧
      row.reportedDigest = request.reportedDigest ∧ row.platform = platform ∧
      ∀ older ∈ rows, older.requestedRef = request.candidateImage → older.reportedDigest = request.reportedDigest →
        older.platform = platform → older.updatedAt ≤ row.updatedAt := by
  obtain ⟨row,hrow,rfl⟩ := Option.map_eq_some_iff.mp h
  obtain ⟨hmem,hnewest⟩ := newestRow_spec hrow
  obtain ⟨hmem,hkind⟩ := List.mem_filter.mp hmem
  rw [decide_eq_true_eq] at hkind
  refine ⟨row,hmem,rfl,hkind.1,hkind.2.1,hkind.2.2,fun older ho himage hdigest hplatform => ?_⟩
  exact hnewest older (List.mem_filter.mpr ⟨ho,decide_eq_true ⟨himage,hdigest,hplatform⟩⟩)

/-- The scan found on a platform, for a request that has no row of its own. -/
theorem exists_shownFor (lower : ∀ severity : FindingSeverity, rules.case.lower severity.text = severity.text)
    {request : PendingSecurityRequest} {info : ShownScan} {platform : Str}
    (missing : ∀ row ∈ scanTable sha256 history, row.requestKey ≠ request.requestKey sha256)
    (image : request.candidateImage ≠ []) (digest : request.reportedDigest ≠ [])
    (h : cachedScanOnPlatform rules (scanTable sha256 history) request platform = some info)
    (wanted : ∀ wanted, request.platform = some wanted → platform = wanted.value)
    (unambiguous : request.platform = none → platform ≠ [] ∧ ∀ row ∈ scanTable sha256 history,
      row.requestedRef = request.candidateImage → row.reportedDigest = request.reportedDigest → row.platform ≠ [] →
        row.platform = platform) :
    ∃ upsert ∈ history, info = upsert.shown request ∧ (upsert.requestKey sha256 = request.requestKey sha256 ∨
      ShownFor sha256 (scanTable sha256 history) request upsert) := by
  obtain ⟨row,hrow,rfl,hrowImage,hrowDigest,rfl,hnewest⟩ := cachedScanOnPlatform_spec h
  obtain ⟨upsert,hu,-,he⟩ := (tableOf sha256 history).exists_upsert hrow
  rw [he] at hrowImage hrowDigest wanted unambiguous hnewest
  refine ⟨upsert,hu,?_,.inr ⟨missing,⟨image,hrowImage⟩,⟨digest,hrowDigest⟩,wanted,unambiguous,hnewest⟩⟩
  rw [he,rowToScanInfo_row lower]

/-- A scan that is shown was stored for the request itself or, where it has no row, for the very image and digest on its
platform; a request without a platform is shown a scan only if all that name a platform agree on it. -/
theorem scan_cache_provenance (lower : ∀ severity : FindingSeverity, rules.case.lower severity.text = severity.text)
    {request : PendingSecurityRequest} {info : ShownScan}
    (h : cachedScanByRequestOrUnambiguousPlatform rules sha256 (scanTable sha256 history) request = some info) :
    ∃ upsert ∈ history, info = upsert.shown request ∧ (upsert.requestKey sha256 = request.requestKey sha256 ∨
      ShownFor sha256 (scanTable sha256 history) request upsert) := by
  have htable := tableOf sha256 history
  rw [cachedScanByRequestOrUnambiguousPlatform] at h
  cases hrequest : cachedScanByRequest rules sha256 (scanTable sha256 history) request with
  | some cached =>
    rw [hrequest] at h
    cases h
    obtain ⟨row,hrow,rfl⟩ := Option.map_eq_some_iff.mp hrequest
    obtain ⟨hmem,hkey⟩ := List.mem_filter.mp (newestRow_spec hrow).1
    obtain ⟨upsert,hu,hsame,he⟩ := htable.exists_upsert hmem
    refine ⟨upsert,hu,?_,.inl (hsame.trans (by simpa using hkey))⟩
    rw [he,rowToScanInfo_row lower]
  | none =>
    rw [hrequest] at h
    dsimp only at h
    have hmissing : ∀ row ∈ scanTable sha256 history, row.requestKey ≠ request.requestKey sha256 := by
      intro row hrow hkey
      have hnone := Recent.newest_eq_none.mp (Option.map_eq_none_iff.mp hrequest)
      exact absurd (List.mem_filter.mpr ⟨hrow,decide_eq_true hkey⟩) (hnone ▸ List.not_mem_nil)
    cases hplatform : request.platform with
    | some wanted =>
      rw [if_pos (by simp [hplatform]),cachedScanByExactPlatform] at h
      split at h
      · cases h
      · rename_i hnamed
        rw [not_or] at hnamed
        rw [hplatform] at h
        apply exists_shownFor lower hmissing hnamed.1 hnamed.2 h
        · intro other ho
          rw [hplatform] at ho
          cases ho
          rfl
        · intro hnone
          rw [hplatform] at hnone
          cases hnone
    | none =>
      rw [if_neg (by simp [hplatform]),cachedScanByUnambiguousPlatform,if_neg (by simp [hplatform])] at h
      split at h
      · cases h
      · rename_i hnamed
        rw [not_or] at hnamed
        split at h
        · rename_i platform honly
          have hplatforms : ∀ row ∈ scanTable sha256 history, row.requestedRef = request.candidateImage →
              row.reportedDigest = request.reportedDigest → row.platform ≠ [] → row.platform = platform := by
            intro row hrow himage hdigest hne
            apply List.mem_singleton.mp
            rw [← honly,mem_orderedUnique]
            exact List.mem_map.mpr ⟨row,List.mem_filter.mpr ⟨hrow,decide_eq_true ⟨himage,hdigest,hne⟩⟩,rfl⟩
          have hnamedPlatform : platform ≠ [] := by
            have hmem := List.mem_singleton_self platform
            rw [← honly,mem_orderedUnique] at hmem
            obtain ⟨row,hrow,rfl⟩ := List.mem_map.mp hmem
            exact (of_decide_eq_true (List.mem_filter.mp hrow).2).2.2
          apply exists_shownFor lower hmissing hnamed.1 hnamed.2 h
          · intro other ho
            rw [hplatform] at ho
            cases ho
          · exact fun _ => ⟨hnamedPlatform,hplatforms⟩
        · cases h

theorem scan_cache_provenance_moved : ∃ upsert ∈ [rescanned.2.1,rescanned.2.2],
    cachedScanByRequestOrUnambiguousPlatform plainScanRules droppedNuls
      (scanTable droppedNuls [rescanned.2.1,rescanned.2.2]) { rescanned.1 with lineNo := 2, platform := none } =
        some (upsert.shown { rescanned.1 with lineNo := 2, platform := none }) := by
  have hsome : (cachedScanByRequestOrUnambiguousPlatform plainScanRules droppedNuls (scanTable droppedNuls
      [rescanned.2.1,rescanned.2.2]) { rescanned.1 with lineNo := 2, platform := none }).isSome = true := by
    decide +kernel
  obtain ⟨info,hinfo⟩ := Option.isSome_iff_exists.mp hsome
  obtain ⟨upsert,hu,rfl,-⟩ := scan_cache_provenance plainScanRules_lower hinfo
  exact ⟨upsert,hu,hinfo⟩

end

/-! From a report of the scanner to what is shown of it. -/

/-- A report of the scanner, as it is stored. -/
def reportUpsert (rules : ScanRules) (payload provenance : Details) (request : PendingSecurityRequest)
    (subject : ResolvedImageSubject) (timestamp : Str) : ScanUpsert :=
  ⟨request,subject,resultFromTrivyPayload rules payload provenance,timestamp⟩

def reportedFindings (rules : ScanRules) (payload : Details) : List SecurityScanFinding :=
  (vulnerabilities payload).map (reportedFinding rules)

theorem fixed_add_unfixed (all : List SecurityScanFinding) :
    all.countP (·.fixedVersion ≠ []) + all.countP (·.fixedVersion = []) = all.length := by
  rw [List.length_eq_countP_add_countP (·.fixedVersion ≠ [])]
  congr 1
  apply List.countP_congr
  intro finding _
  simp

/-- A result that says of its findings what is true of them. -/
structure ResultOf (all : List SecurityScanFinding) (result : SecurityScanResult) : Prop where
  findings : result.findings = all
  verdict : result.verdict = if all ≠ [] then .findings else .noneReported
  severities : result.severityCounts = countsOf fun severity => all.countP (·.severity = severity)
  advisories : result.advisoryCounts = advisoriesBySeverity all
  fixable : result.fixableCounts = countsOf fun severity =>
    all.countP fun finding => finding.severity = severity ∧ finding.fixedVersion ≠ []
  unfixed : result.unfixedCount = all.countP (·.fixedVersion = [])

theorem result_of_report (rules : ScanRules) {payload : Details}
    (results : Json.isArray (payload.lookup "Results".toList) = true) (provenance : Details) :
    ResultOf (reportedFindings rules payload) (resultFromTrivyPayload rules payload provenance) := by
  obtain ⟨hfindings,hseverities,hfixable,hunfixed,hadvisories⟩ := summarize_counted rules payload
  have htotal : ((summarizeTrivyFindings rules payload).severityCounts.map (·.2)).sum ≠ 0 ↔
      reportedFindings rules payload ≠ [] := by
    rw [hseverities,sum_countsOf (p := fun _ => true) (by simp [eq_comm]),List.countP_true,ne_eq,
      List.length_eq_zero_iff]
    rfl
  constructor
  · rw [resultFromTrivyPayload,if_pos results]
    exact hfindings
  · rw [resultFromTrivyPayload,if_pos results]
    simp only [htotal]
  · rw [resultFromTrivyPayload,if_pos results]
    exact hseverities
  · rw [resultFromTrivyPayload,if_pos results,reportedFindings,← advisoryCounts_eq,← hadvisories]
    rfl
  · rw [resultFromTrivyPayload,if_pos results]
    exact hfixable
  · rw [resultFromTrivyPayload,if_pos results]
    exact hunfixed

/-- A report with results is shown finding by finding: the counts are those of its findings, every finding has a fix or
is counted as without one, and the advisories that the scanner counted are counted again from what was stored. -/
theorem scan_report_shown (rules : ScanRules) {payload : Details}
    (results : Json.isArray (payload.lookup "Results".toList) = true) (provenance : Details)
    (request : PendingSecurityRequest) (subject : ResolvedImageSubject) (timestamp : Str) :
    ((reportUpsert rules payload provenance request subject timestamp).shown request).findings =
        reportedFindings rules payload ∧
    ((reportUpsert rules payload provenance request subject timestamp).shown request).severityCounts =
        severityCountsOf (fun severity => (reportedFindings rules payload).countP (·.severity = severity)) ∧
    (((reportUpsert rules payload provenance request subject timestamp).shown request).verdict = .findings ↔
        vulnerabilities payload ≠ []) ∧
    ((resultFromTrivyPayload rules payload provenance).fixableCounts.map (·.2)).sum +
        (resultFromTrivyPayload rules payload provenance).unfixedCount = (vulnerabilities payload).length ∧
    (resultFromTrivyPayload rules payload provenance).advisoryCounts =
        advisoriesBySeverity (reportedFindings rules payload) ∧
    ((reportUpsert rules payload provenance request subject timestamp).shown request).advisoryCounts = severityCountsOf
        (fun severity => ((resultFromTrivyPayload rules payload provenance).advisoryCounts.lookup severity).getD 0) ∧
    ((reportUpsert rules payload provenance request subject timestamp).shown request).advisoryCountsKnown = true := by
  obtain ⟨hfindings,hverdict,hseverities,hadvisories,hfixable,hunfixed⟩ := result_of_report rules results provenance
  have hempty : reportedFindings rules payload = [] ↔ vulnerabilities payload = [] := List.map_eq_nil_iff
  refine ⟨hfindings,?_,?_,?_,hadvisories,?_,?_⟩
  · simp only [ScanUpsert.shown,reportUpsert,hseverities,lookup_countsOf,Option.getD_some]
  · simp only [ScanUpsert.shown,reportUpsert,hverdict,ne_eq,hempty]
    by_cases h : vulnerabilities payload = [] <;> simp [h]
  · rw [hfixable,hunfixed,
      sum_countsOf (p := fun finding => finding.fixedVersion ≠ []) (by simp [eq_comm,Bool.and_comm]),fixed_add_unfixed]
    exact List.length_map _
  · simp only [ScanUpsert.shown,reportUpsert,hfindings,hadvisories,advisoriesBySeverity,lookup_countsOf,
      Option.getD_some]
  · simp only [ScanUpsert.shown,reportUpsert,hfindings,hseverities,lookup_countsOf,Option.getD_some]
    cases reportedFindings rules payload with
    | nil => rfl
    | cons finding rest => rfl

/-- A report of one vulnerability that nothing is said of. -/
def unnamedReport : Details :=
  [("Results".toList,.array [.object [("Vulnerabilities".toList,.array [.object []])]])]

theorem unnamedReport_results : Json.isArray (unnamedReport.lookup "Results".toList) = true := rfl

theorem scan_report_shown_unnamed :
    ((reportUpsert plainScanRules unnamedReport [] rescanned.1 {} []).shown rescanned.1).verdict = .findings :=
  (scan_report_shown plainScanRules unnamedReport_results [] rescanned.1 {} []).2.2.1.mpr (by decide)

end Wudup
