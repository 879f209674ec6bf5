import AdminPlatform.ScheduledTask.DayNames

namespace AdminPlatform.ScheduledTask.DayOfWeek

open Foundation.Crontab Cron DayNames

def KeepsMeaning (field : List Char) (converted : String) : Prop :=
  (∀ a b, [a, '-', b] ∈ field.splitOn ',' → a ≤ b) ∧
    ∃ items days, Foundation.Crontab.field 0 7 field = some items ∧ namedDays converted = some days ∧
      ∀ w < 7, Names days w ↔ SelectsWeekday items w

/-- No range but `0-0` ends at 0, and `0-7` stands only with others that name Monday to Saturday. -/
structure Translatable (field : List Char) : Prop where
  ends : ∀ a, [a, '-', '0'] ∈ field.splitOn ',' → a = '0'
  week : ['0', '-', '7'] ∈ field.splitOn ',' → ∀ v, 1 ≤ v → v ≤ 6 →
    ∃ token ∈ field.splitOn ',', token ≠ ['0', '-', '7'] ∧ ∃ it, item 0 7 token = some it ∧ it.Selects v

variable {lib : CronLibrary} {c : CronTrigger} {expr timezone converted : String} {field : List Char} {t : Token}
  {ts : List Token} {days : List (ℕ × ℕ)} {items : List Item} {v w : ℕ}

theorem splitOn_names (hne : ts ≠ []) :
    (",".intercalate (ts.map Token.name)).toList.splitOn ',' = ts.map fun t ↦ t.name.toList := by
  rw [String.toList_intercalate]
  have hcomma : ",".toList = [','] := rfl
  rw [hcomma, List.splitOn_intercalate, List.map_map]
  · rfl
  · intro l hl
    obtain ⟨n, hn, rfl⟩ := List.mem_map.1 hl
    obtain ⟨t, _, rfl⟩ := List.mem_map.1 hn
    exact comma_name
  · simpa using hne

theorem name_ne_star : t.name.toList ≠ ['*'] := by
  cases t with
  | single a => decide +revert +kernel
  | range a b => decide +revert +kernel

theorem namedDays_names (hne : ts ≠ []) :
    namedDays (",".intercalate (ts.map Token.name)) = (ts.map fun t ↦ t.name.toList).mapM namedItem := by
  rw [namedDays, if_neg, splitOn_names hne]
  intro hstar
  have hsplit := splitOn_names hne
  rw [hstar] at hsplit
  obtain ⟨t, ht⟩ := List.exists_mem_of_ne_nil ts hne
  have hmem : t.name.toList ∈ "*".toList.splitOn ',' := hsplit ▸ List.mem_map_of_mem ht
  exact name_ne_star (List.mem_singleton.1 hmem)

theorem index_le (h : (ts.map fun t ↦ t.name.toList).mapM namedItem = some days) (ht : t ∈ ts) :
    index t.first ≤ index t.last ∧ (index t.first, index t.last) ∈ days := by
  obtain ⟨d, hd, hitem⟩ := exists_of_mapM h (List.mem_map_of_mem ht)
  rw [namedItem_name] at hitem
  split at hitem
  · rename_i hle
    cases hitem
    exact ⟨hle, hd⟩
  · cases hitem

/-- The days that the library reads in a converted list. -/
theorem names_iff (h : (ts.map fun t ↦ t.name.toList).mapM namedItem = some days) :
    Names days w ↔ ∃ t ∈ ts, index t.first ≤ w ∧ w ≤ index t.last := by
  constructor
  · intro ⟨d, hd, hw⟩
    obtain ⟨l, hl, hitem⟩ := mem_of_mapM h hd
    obtain ⟨t, ht, rfl⟩ := List.mem_map.1 hl
    rw [namedItem_name] at hitem
    split at hitem
    · cases hitem
      exact ⟨t, ht, hw⟩
    · cases hitem
  · intro ⟨t, ht, hw⟩
    exact ⟨_, (index_le h ht).2, hw⟩

theorem first_le (h : (ts.map Token.text).mapM (item 0 7) = some items) (ht : t ∈ ts) :
    t.first ≤ t.last ∧ ⟨t.first, t.last, 1⟩ ∈ items := by
  obtain ⟨it, hit, hitem⟩ := exists_of_mapM h (List.mem_map_of_mem ht)
  rw [item_text] at hitem
  split at hitem
  · rename_i hle
    cases hitem
    exact ⟨hle, hit⟩
  · cases hitem

theorem selects_one {first last : ℕ} : Item.Selects ⟨first, last, 1⟩ v ↔ first ≤ v ∧ v ≤ last := by
  simp [Item.Selects, Nat.mod_one]

/-- The days that the crontab names in the list. -/
theorem selects_iff (h : (ts.map Token.text).mapM (item 0 7) = some items) :
    Selects items v ↔ ∃ t ∈ ts, t.first ≤ v ∧ v ≤ t.last := by
  constructor
  · intro ⟨it, hit, hv⟩
    obtain ⟨l, hl, hitem⟩ := mem_of_mapM h hit
    obtain ⟨t, ht, rfl⟩ := List.mem_map.1 hl
    rw [item_text] at hitem
    split at hitem
    · cases hitem
      exact ⟨t, ht, selects_one.1 hv⟩
    · cases hitem
  · intro ⟨t, ht, hv⟩
    exact ⟨_, (first_le h ht).2, selects_one.2 hv⟩

/-- All ranges ascend if none but `0-0` ends at 0. -/
theorem first_le_of_index_le (h : index t.first ≤ index t.last) (hends : ∀ a, t = .range a 0 → a = 0) :
    t.first ≤ t.last := by
  cases t with
  | single a => exact Nat.le_refl _
  | range a b =>
    by_cases hb : b = 0
    · subst hb
      rw [hends a rfl]
      exact Nat.le_refl _
    · simp only [index, Token.first, Token.last] at *
      omega

theorem exists_value {first last : ℕ} (hlast : last ≤ 7) (hle : first ≤ last) (h : index first ≤ index last)
    (hw : w < 7) (hb : index first ≤ w ∧ w ≤ index last) : ∃ v, (first ≤ v ∧ v ≤ last) ∧ index v = w := by
  unfold index at *
  by_cases hsunday : w = 6
  · exact ⟨last, by omega, by omega⟩
  · exact ⟨w + 1, by omega, by omega⟩

theorem index_between {first last : ℕ} (hlast : last ≤ 7) (hle : first ≤ last) (h : index first ≤ index last)
    (hne : ¬ (first = 0 ∧ last = 7)) (hw : w < 7) :
    (index first ≤ w ∧ w ≤ index last) ↔ ∃ v, (first ≤ v ∧ v ≤ last) ∧ index v = w := by
  refine ⟨exists_value hlast hle h hw, fun ⟨v, hv, hvw⟩ ↦ ?_⟩
  unfold index at *
  omega

theorem last_le : t.last ≤ 7 := by
  cases t with
  | single a => exact Nat.le_of_lt_succ a.isLt
  | range a b => exact Nat.le_of_lt_succ b.isLt

theorem eq_week (h : t.first = 0 ∧ t.last = 7) : t = .week := by
  cases t with
  | single a => exact absurd (h.1.symm.trans h.2) (Nat.succ_ne_zero 6).symm
  | range a b =>
    have ha : a = 0 := Fin.ext h.1
    have hb : b = 7 := Fin.ext h.2
    rw [ha, hb]
    rfl

theorem text_inj {t' : Token} (h : t.text = t'.text) : t = t' := by
  cases t with
  | single a =>
    cases t' with
    | single b =>
      have hab : digit a = digit b := by simpa [Token.text] using h
      rw [digit_inj hab]
    | range b b' => simp [Token.text] at h
  | range a a' =>
    cases t' with
    | single b => simp [Token.text] at h
    | range b b' =>
      simp only [Token.text, List.cons.injEq, and_true, true_and] at h
      rw [digit_inj h.1, digit_inj h.2]

def Agrees (ts : List Token) : Prop := (∀ t ∈ ts, t.first ≤ t.last) ∧
  ∀ w < 7, (∃ t ∈ ts, index t.first ≤ w ∧ w ≤ index t.last) ↔
    ∃ v ≤ 7, (∃ t ∈ ts, t.first ≤ v ∧ v ≤ t.last) ∧ index v = w

theorem agrees_iff (h : ∀ t ∈ ts, index t.first ≤ index t.last) : Agrees ts ↔
    (∀ a, Token.range a 0 ∈ ts → a = 0) ∧
      (Token.week ∈ ts → ∀ v, 1 ≤ v → v ≤ 6 → ∃ t ∈ ts, t ≠ .week ∧ t.first ≤ v ∧ v ≤ t.last) := by
  constructor
  · intro ⟨hle, hsame⟩
    refine ⟨fun a ha ↦ ?_, fun hweek v hv hv' ↦ ?_⟩
    · exact Fin.ext (Nat.le_zero.1 (hle _ ha))
    · have hindex : index v = v - 1 := by
        unfold index
        omega
      obtain ⟨t, ht, hb⟩ := (hsame (v - 1) (by omega)).2
        ⟨v, by omega, ⟨.week, hweek, Nat.zero_le _, Nat.le_trans hv' (Nat.le_succ 6)⟩, hindex⟩
      have hne : t ≠ .week := by
        rintro rfl
        have hsix : 6 ≤ v - 1 := hb.1
        omega
      obtain ⟨u, hu, huv⟩ := (index_between last_le (hle t ht) (h t ht) (fun hw ↦ hne (eq_week hw))
        (by omega)).1 hb
      have hu' : u ≤ 7 := Nat.le_trans hu.2 last_le
      have huv' : u = v := by
        unfold index at huv
        omega
      rw [huv'] at hu
      exact ⟨t, ht, hne, hu⟩
  · intro ⟨hends, hrest⟩
    have hle : ∀ t ∈ ts, t.first ≤ t.last := fun t ht ↦
      first_le_of_index_le (h t ht) fun a ha ↦ hends a (ha ▸ ht)
    refine ⟨hle, fun w hw ↦ ⟨fun ⟨t, ht, hb⟩ ↦ ?_, fun ⟨v, hv, ⟨t, ht, hb⟩, hvw⟩ ↦ ?_⟩⟩
    · by_cases hweek : t = .week
      · subst hweek
        have hb' : 6 ≤ w := hb.1
        have hsix : 6 = w := by omega
        exact ⟨7, Nat.le_refl _, ⟨.week, ht, Nat.zero_le _, Nat.le_refl _⟩, hsix⟩
      · obtain ⟨v, hv, hvw⟩ := (index_between last_le (hle t ht) (h t ht) (fun hw ↦ hweek (eq_week hw)) hw).1 hb
        exact ⟨v, Nat.le_trans hv.2 last_le, ⟨t, ht, hv⟩, hvw⟩
    · by_cases hweek : t = .week
      · subst hweek
        by_cases hsunday : w = 6
        · exact ⟨.week, ht, by rw [hsunday]; exact ⟨Nat.le_refl _, Nat.le_refl _⟩⟩
        · have hv' : 1 ≤ v ∧ v ≤ 6 := by
            unfold index at hvw
            omega
          obtain ⟨t, ht, hne, hb⟩ := hrest ht v hv'.1 hv'.2
          exact ⟨t, ht, (index_between last_le (hle t ht) (h t ht) (fun hw ↦ hne (eq_week hw)) hw).2 ⟨v, hb, hvw⟩⟩
      · exact ⟨t, ht, (index_between last_le (hle t ht) (h t ht) (fun hw ↦ hweek (eq_week hw)) hw).2 ⟨v, hb, hvw⟩⟩

section List

variable (htokens : field.splitOn ',' = ts.map Token.text)
include htokens

theorem text_mem : t.text ∈ field.splitOn ',' ↔ t ∈ ts := by
  rw [htokens, List.mem_map]
  constructor
  · intro ⟨t', ht', h⟩
    rwa [← text_inj h]
  · intro ht
    exact ⟨t, ht, rfl⟩

theorem exists_items (h : ∀ t ∈ ts, t.first ≤ t.last) :
    ∃ items, Foundation.Crontab.field 0 7 field = some items := by
  refine ⟨ts.map fun t ↦ ⟨t.first, t.last, 1⟩, ?_⟩
  rw [Foundation.Crontab.field, htokens, mapM_eq_some, List.map_map, List.map_map]
  refine List.map_congr_left fun t ht ↦ ?_
  rw [Function.comp_apply, Function.comp_apply, item_text, if_pos (h t ht)]

theorem keepsMeaning_iff (hdays : namedDays converted = some days)
    (hmap : (ts.map fun t ↦ t.name.toList).mapM namedItem = some days) :
    KeepsMeaning field converted ↔ Agrees ts := by
  have hitems : ∀ {items}, Foundation.Crontab.field 0 7 field = some items →
      (ts.map Token.text).mapM (item 0 7) = some items := by
    intro items h
    rw [← htokens, ← h]
    rfl
  constructor
  · intro ⟨_, items, days', h, hdays', hsame⟩
    rw [hdays] at hdays'
    cases hdays'
    refine ⟨fun t ht ↦ (first_le (hitems h) ht).1, fun w hw ↦ ?_⟩
    rw [← names_iff hmap, hsame w hw]
    simp only [SelectsWeekday, selects_iff (hitems h)]
    rfl
  · intro ⟨hle, hsame⟩
    obtain ⟨items, h⟩ := exists_items htokens hle
    refine ⟨fun a b hab ↦ ?_, items, days, h, hdays, fun w hw ↦ ?_⟩
    · rw [htokens] at hab
      obtain ⟨t, ht, htext⟩ := List.mem_map.1 hab
      cases t with
      | single a' => simp [Token.text] at htext
      | range a' b' =>
        simp only [Token.text, List.cons.injEq, and_true, true_and] at htext
        rw [← htext.1, ← htext.2, digit_le]
        exact hle _ ht
    · rw [names_iff hmap, hsame w hw]
      simp only [SelectsWeekday, selects_iff (hitems h)]
      rfl

theorem translatable_iff : Translatable field ↔ (∀ a, Token.range a 0 ∈ ts → a = 0) ∧
    (Token.week ∈ ts → ∀ v, 1 ≤ v → v ≤ 6 → ∃ t ∈ ts, t ≠ .week ∧ t.first ≤ v ∧ v ≤ t.last) := by
  have hzero : digit 0 = '0' := rfl
  have hweek : Token.week.text = ['0', '-', '7'] := rfl
  constructor
  · intro ⟨hends, hrest⟩
    refine ⟨fun a ha ↦ digit_inj (hends (digit a) ((text_mem htokens).2 ha)), fun h v hv hv' ↦ ?_⟩
    obtain ⟨token, htoken, hne, it, hit, hs⟩ := hrest ((text_mem htokens).2 h) v hv hv'
    rw [htokens] at htoken
    obtain ⟨t, ht, rfl⟩ := List.mem_map.1 htoken
    rw [item_text] at hit
    split at hit
    · cases hit
      exact ⟨t, ht, fun h ↦ hne (by rw [h, hweek]), selects_one.1 hs⟩
    · cases hit
  · intro ⟨hends, hrest⟩
    refine ⟨fun a ha ↦ ?_, fun h v hv hv' ↦ ?_⟩
    · rw [htokens] at ha
      obtain ⟨t, ht, htext⟩ := List.mem_map.1 ha
      cases t with
      | single b => simp [Token.text] at htext
      | range b b' =>
        simp only [Token.text, List.cons.injEq, and_true, true_and] at htext
        have hb' : b' = 0 := digit_inj (htext.2.trans hzero.symm)
        subst hb'
        rw [← htext.1, hends b ht, hzero]
    · rw [← hweek, text_mem htokens] at h
      obtain ⟨t, ht, hne, hb⟩ := hrest h v hv hv'
      refine ⟨t.text, (text_mem htokens).2 ht, fun heq ↦ hne (text_inj (heq.trans hweek.symm)), ?_⟩
      exact ⟨⟨t.first, t.last, 1⟩, by rw [item_text, if_pos (Nat.le_trans hb.1 hb.2)], selects_one.2 hb⟩

end List

theorem star_keepsMeaning : KeepsMeaning ['*'] "*" := by
  have hsplit : ['*'].splitOn ',' = [['*']] := rfl
  refine ⟨fun a b h ↦ ?_, [⟨0, 7, 1⟩], [(0, 6)], rfl, rfl, by decide⟩
  simp [hsplit] at h

theorem star_translatable : Translatable ['*'] := by
  have hsplit : ['*'].splitOn ',' = [['*']] := rfl
  refine ⟨fun a h ↦ ?_, fun h ↦ ?_⟩
  · simp [hsplit] at h
  · simp [hsplit] at h

/-- A field, what it is converted to, and the days that the library reads in that. -/
inductive Conversion : List Char → String → List (ℕ × ℕ) → Prop
  | star : Conversion ['*'] "*" [(0, 6)]
  | list {field : List Char} {ts : List Token} {days : List (ℕ × ℕ)} : field.splitOn ',' = ts.map Token.text →
      (ts.map fun t ↦ t.name.toList).mapM namedItem = some days →
      Conversion field (",".intercalate (ts.map Token.name)) days

theorem conversion_of_convert (h : _convertDowToNames lib field = .ok converted)
    (hw : ∀ x ∈ field, isSpace x = false) (hdays : namedDays converted = some days) :
    Conversion field converted days := by
  rcases of_convert h hw with ⟨rfl, rfl⟩ | ⟨ts, htokens, rfl⟩
  · cases hdays
    exact .star
  · have hne : ts ≠ [] := by
      rintro rfl
      exact List.splitOn_ne_nil _ _ htokens
    exact .list htokens ((namedDays_names hne).symm.trans hdays)

namespace Conversion

variable (h : Conversion field converted days)
include h

theorem namedDays_eq : namedDays converted = some days := by
  cases h with
  | star => rfl
  | list htokens hmap =>
    refine (namedDays_names ?_).trans hmap
    rintro rfl
    exact List.splitOn_ne_nil _ _ htokens

theorem eq_star (hs : '*' ∈ field) : field = ['*'] := by
  cases h with
  | star => rfl
  | list htokens hmap =>
    obtain ⟨token, ht, hstar⟩ := (mem_splitOn (show '*' ≠ ',' by decide)).1 hs
    rw [htokens] at ht
    obtain ⟨t, _, rfl⟩ := List.mem_map.1 ht
    exact absurd hstar star_text

theorem listed : field = ['*'] ∨ ∀ token ∈ field.splitOn ',', ∃ t : Token, token = t.text := by
  cases h with
  | star => exact .inl rfl
  | list htokens hmap =>
    refine .inr fun token ht ↦ ?_
    rw [htokens] at ht
    obtain ⟨t, _, rfl⟩ := List.mem_map.1 ht
    exact ⟨t, rfl⟩

theorem keepsMeaning_iff_translatable : KeepsMeaning field converted ↔ Translatable field := by
  have hdays := h.namedDays_eq
  cases h with
  | star => exact iff_of_true star_keepsMeaning star_translatable
  | list htokens hmap =>
    rw [keepsMeaning_iff htokens hdays hmap, agrees_iff fun t ht ↦ (index_le hmap ht).1, translatable_iff htokens]

/-- What the library reads the crontab names as well. -/
theorem selects_of_names (hitems : Foundation.Crontab.field 0 7 field = some items) (hw : w < 7)
    (hn : Names days w) : SelectsWeekday items w := by
  cases h with
  | star =>
    cases hitems
    revert w
    decide
  | list htokens hmap =>
    rw [Foundation.Crontab.field, htokens] at hitems
    obtain ⟨t, ht, hb⟩ := (names_iff hmap).1 hn
    obtain ⟨v, hv, hvw⟩ := exists_value last_le (first_le hitems ht).1 (index_le hmap ht).1 hw hb
    exact ⟨v, Nat.le_trans hv.2 last_le, (selects_iff hitems).2 ⟨t, ht, hv⟩, hvw⟩

theorem keepsMeaning_of_names (hitems : Foundation.Crontab.field 0 7 field = some items)
    (hsame : ∀ w < 7, Names days w ↔ SelectsWeekday items w) : KeepsMeaning field converted := by
  have hdays := h.namedDays_eq
  cases h with
  | star => exact star_keepsMeaning
  | list htokens hmap =>
    have hitems' := hitems
    rw [Foundation.Crontab.field, htokens] at hitems'
    rw [keepsMeaning_iff htokens hdays hmap]
    refine ⟨fun t ht ↦ (first_le hitems' ht).1, fun w hw ↦ ?_⟩
    rw [← names_iff hmap, hsame w hw]
    simp only [SelectsWeekday, selects_iff hitems']
    rfl

end Conversion

/-- Of the fields that are accepted, exactly these keep their meaning. -/
theorem accepted_keepsMeaning_iff (hlib : ReadsNames lib) (hb : buildCronTrigger lib expr timezone = .ok c) :
    ∃ minute hour day month dow converted, split (strip expr.toList) = [minute, hour, day, month, dow] ∧
      _convertDowToNames lib dow = .ok converted ∧
      (dow = ['*'] ∨ ∀ token ∈ dow.splitOn ',', ∃ t : Token, token = t.text) ∧
      (KeepsMeaning dow converted ↔ Translatable dow) := by
  obtain ⟨minute, hour, day, month, dow, converted, hsplit, hconvert, hbuilt⟩ := of_buildCronTrigger hb
  obtain ⟨days, hdays⟩ := hlib _ _ hbuilt
  have hword : dow ∈ split (strip expr.toList) := by
    rw [hsplit]
    simp
  have h := conversion_of_convert hconvert (word_of_split hword) hdays
  exact ⟨minute, hour, day, month, dow, converted, hsplit, hconvert, h.listed, h.keepsMeaning_iff_translatable⟩

def namingLibrary : CronLibrary where
  zoneInfo _ := true
  cronTrigger fields := if (namedDays fields.dayOfWeek).isSome then .ok everyMinute else .error "day of week"
  repr := id

theorem readsNames_namingLibrary : ReadsNames namingLibrary := by
  intro fields c h
  change (if (namedDays fields.dayOfWeek).isSome then _ else _) = _ at h
  split at h
  · rename_i hsome
    exact Option.isSome_iff_exists.1 hsome
  · cases h

theorem accepted_keepsMeaning_iff_workdays :
    ∃ minute hour day month dow converted,
      split (strip "0 3 * * 1-5".toList) = [minute, hour, day, month, dow] ∧
      _convertDowToNames namingLibrary dow = .ok converted ∧
      (dow = ['*'] ∨ ∀ token ∈ dow.splitOn ',', ∃ t : Token, token = t.text) ∧
      (KeepsMeaning dow converted ↔ Translatable dow) := by
  have hb : buildCronTrigger namingLibrary "0 3 * * 1-5" "UTC" = .ok everyMinute := rfl
  exact accepted_keepsMeaning_iff readsNames_namingLibrary hb

/-- From Sunday to Sunday is read as Sunday. -/
theorem week_loses_meaning : ¬ ∀ lib expr timezone c minute hour day month dow converted, ReadsNames lib →
    buildCronTrigger lib expr timezone = .ok c → split (strip expr.toList) = [minute, hour, day, month, dow] →
    _convertDowToNames lib dow = .ok converted → KeepsMeaning dow converted := by
  intro h
  have hb : buildCronTrigger namingLibrary "0 3 * * 0-7" "UTC" = .ok everyMinute := rfl
  obtain ⟨_, items, days, hitems, hdays, hsame⟩ :=
    h _ _ _ _ ['0'] ['3'] ['*'] ['*'] ['0', '-', '7'] "sun-sun" readsNames_namingLibrary hb rfl rfl
  have hitems' : items = [⟨0, 7, 1⟩] := Option.some.inj (hitems.symm.trans rfl)
  have hdays' : days = [(6, 6)] := Option.some.inj (hdays.symm.trans rfl)
  subst hitems' hdays'
  exact absurd ((hsame 0 (by decide)).2 (by decide)) (by decide)

end AdminPlatform.ScheduledTask.DayOfWeek
