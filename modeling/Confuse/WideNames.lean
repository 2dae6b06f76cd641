import Confuse.CallbackCalls
import Confuse.RenameCollisions
import Confuse.WideStrings

/-!
# Names that are not well formed

Windows names are any 16-bit units. The adapter works with lossy strings throughout, so names are
told apart as far as their units differ once the unpaired surrogates are replaced, and no further.
-/

namespace Confuse

open Interaction PathResolver

/-- The lossy string of some units. -/
def lossyUnits (us : List UInt16) : Str := (decodeUtf16 us).map CodePoint.lossy

def isSeparatorUnit (u : UInt16) : Bool := u == 0x5C || u == 0x2F

/-! ## Cutting before or after the conversion -/

theorem decodeUtf16_append_single {u : UInt16} (hl : isLead u = false) (ht : isTrail u = false)
    (us vs : List UInt16) : decodeUtf16 (us ++ u :: vs)
      = decodeUtf16 us ++ .scalar (Char.ofNat u.toNat) :: decodeUtf16 vs := by
  induction us using decodeUtf16.induct with
  | case1 => exact decode_singleton hl ht vs
  | case2 x =>
      have hstep : decodeUtf16 (x :: u :: vs) = decodeUnit x :: decodeUtf16 (u :: vs) := by
        rw [decodeUtf16, if_neg (by simp [ht])]
      rw [List.singleton_append, hstep, decode_singleton hl ht]
      rfl
  | case3 x y rest hpair ih =>
      rw [List.cons_append, List.cons_append, decodeUtf16, decodeUtf16, if_pos hpair, if_pos hpair, ih]
      rfl
  | case4 x y rest hpair ih =>
      rw [List.cons_append, List.cons_append, decodeUtf16, decodeUtf16, if_neg hpair, if_neg hpair]
      exact congrArg _ ih

/-- Units below the surrogates stand for themselves. -/
theorem lossyUnits_append {u : UInt16} (hu : u.toNat < 0xD800) (us vs : List UInt16) :
    lossyUnits (us ++ u :: vs) = lossyUnits us ++ Char.ofNat u.toNat :: lossyUnits vs := by
  have hl : isLead u = false := by
    rw [← Bool.not_eq_true, isLead_iff]
    omega
  have ht : isTrail u = false := by
    rw [← Bool.not_eq_true, isTrail_iff]
    omega
  rw [lossyUnits, decodeUtf16_append_single hl ht, List.map_append]
  rfl

theorem encode_lossyUnits (us : List UInt16) : encodeUtf16 (lossyUnits us) = replaceUnpaired us :=
  encode_lossy_decode us

theorem replaceUnit_eq (u : UInt16) : replaceUnit u = u ∨ replaceUnit u = 0xFFFD := by
  unfold replaceUnit
  split_ifs
  · exact .inr rfl
  · exact .inl rfl

theorem mem_replaceUnpaired {u : UInt16} {us : List UInt16} (h : u ∈ replaceUnpaired us) :
    u ∈ us ∨ u = 0xFFFD := by
  induction us using replaceUnpaired.induct with
  | case1 => cases h
  | case2 x =>
      rw [List.mem_singleton.mp h]
      exact (replaceUnit_eq x).imp_left fun hx => List.mem_singleton.mpr hx
  | case3 x y rest hpair ih =>
      rw [replaceUnpaired, if_pos hpair, List.mem_cons, List.mem_cons] at h
      rcases h with rfl | rfl | h
      · exact .inl List.mem_cons_self
      · exact .inl (by simp)
      · exact (ih h).imp_left fun hu => by simp [hu]
  | case4 x y rest hpair ih =>
      rw [replaceUnpaired, if_neg hpair, List.mem_cons] at h
      rcases h with rfl | h
      · exact (replaceUnit_eq x).imp_left fun hx => by simp [hx]
      · exact (ih h).imp_left fun hu => List.mem_cons_of_mem x hu

/-- A character below the surrogates comes from the unit with its number. -/
theorem mem_of_mem_lossyUnits {c : Char} (hc : c.toNat < 0xD800) {us : List UInt16}
    (h : c ∈ lossyUnits us) : UInt16.ofNat c.toNat ∈ us := by
  have hunit : UInt16.ofNat c.toNat ∈ encodeUtf16 (lossyUnits us) := by
    refine List.mem_flatMap.mpr ⟨c, h, ?_⟩
    rw [encodeChar, if_pos (by omega)]
    exact List.mem_singleton_self _
  rw [encode_lossyUnits] at hunit
  refine (mem_replaceUnpaired hunit).resolve_right fun heq => ?_
  have hnat := congrArg UInt16.toNat heq
  rw [UInt16.toNat_ofNat'] at hnat
  have hreplacement : (0xFFFD : UInt16).toNat = 0xFFFD := rfl
  omega

theorem isSeparator_lossyUnits {us : List UInt16} (h : ∀ u ∈ us, isSeparatorUnit u = false) :
    ∀ c ∈ lossyUnits us, isSeparator c = false := by
  intro c hc
  by_contra hsep
  have hcase : c = '\\' ∨ c = '/' := by simpa [isSeparator] using Bool.of_not_eq_false hsep
  rcases hcase with rfl | rfl
  · exact absurd (h 0x5C (mem_of_mem_lossyUnits (by decide) hc)) (by decide)
  · exact absurd (h 0x2F (mem_of_mem_lossyUnits (by decide) hc)) (by decide)

theorem isSeparatorUnit_iff {u : UInt16} : isSeparatorUnit u = true ↔ u = 0x5C ∨ u = 0x2F := by
  simp [isSeparatorUnit]

theorem splitOnP_lossyUnits (us : List UInt16) :
    (lossyUnits us).splitOnP isSeparator = (us.splitOnP isSeparatorUnit).map lossyUnits := by
  induction hn : us.length using Nat.strong_induction_on generalizing us with
  | _ n ih =>
      by_cases hsep : ∃ u ∈ us, isSeparatorUnit u = true
      · obtain ⟨u, hu, hsep⟩ := hsep
        obtain ⟨xs, vs, rfl⟩ := List.append_of_mem hu
        rw [List.length_append, List.length_cons] at hn
        have hlow : u.toNat < 0xD800 ∧ isSeparator (Char.ofNat u.toNat) = true := by
          rcases isSeparatorUnit_iff.mp hsep with rfl | rfl <;> decide
        rw [lossyUnits_append hlow.1, List.splitOnP_append_cons _ _ hlow.2,
          List.splitOnP_append_cons _ _ hsep, List.map_append, ih _ (by omega) xs rfl,
          ih _ (by omega) vs rfl]
      · have hnone : ∀ u ∈ us, isSeparatorUnit u = false := by simpa using hsep
        rw [List.splitOnP_eq_singleton hnone,
          List.splitOnP_eq_singleton (isSeparator_lossyUnits hnone), List.map_singleton]

/-- What lies between the separators of a path. -/
def wideParts (us : List UInt16) : List (List UInt16) :=
  (us.splitOnP isSeparatorUnit).filter fun part => part ≠ []

theorem lossyUnits_eq_nil_iff {us : List UInt16} : lossyUnits us = [] ↔ us = [] := by
  constructor
  · intro h
    rcases us with _ | ⟨u, _ | ⟨v, rest⟩⟩
    · rfl
    · cases h
    · unfold lossyUnits decodeUtf16 at h
      split_ifs at h <;> cases h
  · rintro rfl
    rfl

theorem pathParts_lossyUnits (us : List UInt16) :
    pathParts (lossyUnits us) = (wideParts us).map lossyUnits := by
  rw [pathParts, splitOnP_lossyUnits, wideParts, List.filter_map]
  refine congrArg _ (List.filter_congr fun part _ => ?_)
  simp [lossyUnits_eq_nil_iff]

/-- The last character is one below the surrogates exactly when the last unit is its number. -/
theorem getLast?_lossyUnits {c : Char} (hc : c.toNat < 0xD800) (us : List UInt16) :
    (lossyUnits us).getLast? = some c ↔ us.getLast? = some (UInt16.ofNat c.toNat) := by
  have hunit : (UInt16.ofNat c.toNat).toNat = c.toNat := by
    rw [UInt16.toNat_ofNat']
    omega
  have hlow : (UInt16.ofNat c.toNat).toNat < 0xD800 := by omega
  constructor
  · intro hlast
    induction hn : us.length using Nat.strong_induction_on generalizing us with
    | _ n ih =>
        obtain ⟨xs, vs, rfl⟩ := List.append_of_mem
          (mem_of_mem_lossyUnits hc (List.mem_of_getLast? hlast))
        rw [List.length_append, List.length_cons] at hn
        rw [lossyUnits_append hlow, List.getLast?_append, List.getLast?_cons, Option.some_or,
          Option.some_inj] at hlast
        cases hrest : (lossyUnits vs).getLast? with
        | none =>
            obtain rfl : vs = [] :=
              lossyUnits_eq_nil_iff.mp (List.getLast?_eq_none_iff.mp hrest)
            simp
        | some d =>
            rw [hrest, Option.getD_some] at hlast
            subst hlast
            have hvs := ih vs.length (by omega) vs hrest rfl
            rw [List.getLast?_append, List.getLast?_cons, hvs]
            rfl
  · intro hlast
    obtain ⟨xs, rfl⟩ : ∃ xs, us = xs ++ [UInt16.ofNat c.toNat] :=
      ⟨_, (List.dropLast_append_getLast? _ hlast).symm⟩
    rw [lossyUnits_append hlow, hunit, Char.ofNat_toNat]
    simp [lossyUnits, decodeUtf16]

theorem replaceUnpaired_eq_self {us : List UInt16} (h : (0xFFFD : UInt16) ∉ replaceUnpaired us) :
    replaceUnpaired us = us := by
  have hunit : ∀ u : UInt16, replaceUnit u ≠ 0xFFFD → replaceUnit u = u := fun u =>
    (replaceUnit_eq u).resolve_right
  induction us using replaceUnpaired.induct with
  | case1 => rfl
  | case2 x =>
      have hx : replaceUnit x ≠ 0xFFFD := fun heq => h (by simp [replaceUnpaired, heq])
      rw [replaceUnpaired, hunit x hx]
  | case3 x y rest hpair ih =>
      rw [replaceUnpaired, if_pos hpair] at h ⊢
      rw [ih fun hmem => h (by simp [hmem])]
  | case4 x y rest hpair ih =>
      rw [replaceUnpaired, if_neg hpair] at h ⊢
      have hx : replaceUnit x ≠ 0xFFFD := fun heq => h (by simp [heq])
      rw [ih fun hmem => h (List.mem_cons_of_mem _ hmem), hunit x hx]

theorem lossyUnits_encodeUtf16 (s : Str) : lossyUnits (encodeUtf16 s) = s := by
  simp [lossyUnits, decode_encode, Function.comp_def, CodePoint.lossy]

/-- A string without surrogates and replacement characters has one sequence of units. -/
theorem lossyUnits_eq_iff {s : Str} (hs : ∀ c ∈ s, c.toNat < 0xD800) {us : List UInt16} :
    lossyUnits us = s ↔ us = encodeUtf16 s := by
  constructor
  · intro h
    have hencoded : replaceUnpaired us = encodeUtf16 s := by rw [← encode_lossyUnits, h]
    rw [← hencoded, replaceUnpaired_eq_self]
    rw [hencoded]
    intro hmem
    obtain ⟨c, hc, hu⟩ := List.mem_flatMap.mp hmem
    have hlow := hs c hc
    rw [encodeChar, if_pos (by omega)] at hu
    have hnat := congrArg UInt16.toNat (List.mem_singleton.mp hu)
    rw [UInt16.toNat_ofNat'] at hnat
    have hreplacement : (0xFFFD : UInt16).toNat = 0xFFFD := rfl
    omega
  · rintro rfl
    exact lossyUnits_encodeUtf16 s

/-! ## Components and leaves in units -/

def pushWide (components : List (List UInt16)) (component : List UInt16) : List (List UInt16) :=
  if component.getLast? = some 0x3A ∨ component = [0x2E] then components
  else if component = [0x2E, 0x2E] then components.dropLast
  else components ++ [component]

/-- The components of a path before the conversion. -/
def wideComponents (path : U16CStr) : List (List UInt16) :=
  (wideParts path.units).foldl pushWide []

/-- The last part of a path that is no drive, before the conversion. -/
def wideLeaf (path : U16CStr) : Option (List UInt16) :=
  ((wideParts path.units).filter fun part => part.getLast? ≠ some 0x3A).getLast?

/-- The name that the file system is given for some units. -/
def nameOf (us : List UInt16) : OsStr := .new (lossyUnits us)

theorem endsInColon_iff (us : List UInt16) :
    (lossyUnits us).getLast? = some ':' ↔ us.getLast? = some 0x3A :=
  getLast?_lossyUnits (by decide) us

theorem pushComponent_lossyUnits (components : List (List UInt16)) (component : List UInt16) :
    pushComponent (components.map lossyUnits) (lossyUnits component)
      = (pushWide components component).map lossyUnits := by
  have hdot : lossyUnits component = ['.'] ↔ component = [0x2E] := lossyUnits_eq_iff (by simp)
  have hdots : lossyUnits component = ['.', '.'] ↔ component = [0x2E, 0x2E] :=
    lossyUnits_eq_iff (by simp)
  unfold pushComponent pushWide
  simp only [endsInColon_iff, hdot, hdots]
  split_ifs <;> simp

theorem foldl_pushComponent_lossyUnits (parts components : List (List UInt16)) :
    (parts.map lossyUnits).foldl pushComponent (components.map lossyUnits)
      = (parts.foldl pushWide components).map lossyUnits := by
  induction parts generalizing components with
  | nil => rfl
  | cons part parts ih =>
      rw [List.map_cons, List.foldl_cons, pushComponent_lossyUnits, ih, List.foldl_cons]

/-- It makes no difference whether a path is normalised before or after the conversion. -/
theorem normalizedComponents_wide (path : U16CStr) :
    normalizedComponents path.path = (wideComponents path).map lossyUnits := by
  unfold normalizedComponents U16CStr.path
  rw [OsStr.toStringLossy_new]
  change (pathParts (lossyUnits path.units)).foldl pushComponent _ = _
  rw [pathParts_lossyUnits]
  exact foldl_pushComponent_lossyUnits (wideParts path.units) []

theorem splitParentAndName_wide {path : U16CStr} {us : List UInt16}
    (hleaf : wideLeaf path = some us) : (splitParentAndName path).2 = nameOf us := by
  have hparts : (pathParts path.toStringLossy).filter (fun part => part.getLast? ≠ some ':')
      = ((wideParts path.units).filter fun part => part.getLast? ≠ some 0x3A).map lossyUnits := by
    change (pathParts (lossyUnits path.units)).filter _ = _
    rw [pathParts_lossyUnits, List.filter_map]
    refine congrArg _ (List.filter_congr fun part _ => ?_)
    simp [endsInColon_iff]
  unfold wideLeaf at hleaf
  unfold splitParentAndName
  dsimp only
  rw [hparts, List.getLast?_map, hleaf]
  rfl

theorem nameOf_eq_iff {us vs : List UInt16} :
    nameOf us = nameOf vs ↔ replaceUnpaired us = replaceUnpaired vs := by
  rw [← encode_lossyUnits, ← encode_lossyUnits, encodeUtf16_injective.eq_iff]
  constructor
  · intro h
    have hlossy := congrArg OsStr.toStringLossy h
    rwa [nameOf, nameOf, OsStr.toStringLossy_new, OsStr.toStringLossy_new] at hlossy
  · exact congrArg OsStr.new

/-! ## What the file system is asked for -/

theorem resolveComponent_looksUp (req : Request) (component : LookupComponent) :
    (resolveComponent req component).Performs fun e : Effect =>
      ∀ c, e = .fs c → c = .lookup req component.parent component.name := by
  let ok : Effect → Prop := fun e =>
    ∀ c, e = .fs c → c = .lookup req component.parent component.name
  have htable : ∀ o : TableOp, (Routine.table o).Performs ok := fun o =>
    .perform fun c hc => Effect.noConfusion hc
  have hdrain : (drainResolverForgets req).Performs ok :=
    .perform fun c hc => Effect.noConfusion hc
  refine .bind (.bind (htable _) fun cached => ?_) fun cached => ?_
  · rcases cached with _ | ⟨err⟩ | ⟨entry⟩
    · exact .pure _
    · exact .bind hdrain fun _ => .pure _
    · exact .pure _
  · rcases cached with ⟨err⟩ | ⟨_ | ⟨entry⟩⟩
    · exact .pure _
    · refine .bind (.perform fun c hc => (Effect.fs.inj hc).symm) fun status => ?_
      rcases status with _ | ⟨err⟩ | ⟨payload⟩
      · exact .bind hdrain fun _ => .pure _
      · refine .bind ?_ fun _ => .pure _
        unfold rememberNegativeLookup
        split_ifs
        · exact .bind (htable _) fun _ => hdrain
        · exact hdrain
      · exact .bind (htable _) fun _ => .pure _
    · exact .pure _

/-- Once it has come to the parent directory, a resolution of the path asks the file system for nothing
but the leaf. -/
def LooksUpLast (path : U16CStr) (leaf : OsStr) : Prop :=
  ∀ (β φ : Type) (pf : Platform) (h : Host β φ) (notices : Notices) (req : Request) (w : World β φ),
    ∃ last, w.newEvents pf h notices (resolvePathIno pf req path.path)
        = w.newEvents pf h notices (walkToLast req path.path) ++ last ∧
      ∀ c reply, .call c reply ∈ last → ∃ parent, c = .lookup req parent leaf

theorem looksUpLast_wide {path : U16CStr} {us : List UInt16}
    (hlast : (wideComponents path).getLast? = some us) : LooksUpLast path (nameOf us) := by
  intro β φ pf h notices req w
  have hcomponent : lossyUnits us ∈ (normalizedComponents path.path).getLast? := by
    rw [normalizedComponents_wide, List.getLast?_map, hlast]
    rfl
  rw [resolvePathIno_concat hcomponent, World.newEvents_bind]
  refine ⟨_, rfl, ?_⟩
  refine calls_every (P := fun c => ∃ parent, c = .lookup req parent (nameOf us)) ?_ _ _
    (World.newEvents_traces pf h notices _ _)
  cases ((walkToLast req path.path).run (machine pf h notices) w).1 with
  | error err => exact .pure _
  | ok dir =>
      refine .bind ((resolveComponent_looksUp req _).mono fun e he c hc => ⟨_, he c hc⟩) fun found => ?_
      cases found <;> exact .pure _

/-- The leaf names of two paths are different exactly when the last components are different once the
unpaired surrogates are replaced. -/
theorem leaf_names_differ_iff :
    (∀ p q us vs, wideLeaf p = some us → wideLeaf q = some vs →
      ((splitParentAndName p).2 ≠ (splitParentAndName q).2 ↔
        replaceUnpaired us ≠ replaceUnpaired vs)) ∧
    ∀ p q us vs, (wideComponents p).getLast? = some us → (wideComponents q).getLast? = some vs →
      LooksUpLast p (nameOf us) ∧ LooksUpLast q (nameOf vs) ∧
        (nameOf us ≠ nameOf vs ↔ replaceUnpaired us ≠ replaceUnpaired vs) := by
  constructor
  · intro p q us vs hp hq
    rw [splitParentAndName_wide hp, splitParentAndName_wide hq, Ne, nameOf_eq_iff]
  · intro p q us vs hp hq
    exact ⟨looksUpLast_wide hp, looksUpLast_wide hq, nameOf_eq_iff.not⟩

/-- A lone surrogate and the letter a. -/
theorem leaf_names_differ_surrogate :
    (splitParentAndName ⟨[0x5C, 0xD800], by simp⟩).2
      ≠ (splitParentAndName ⟨[0x5C, 0x61], by simp⟩).2 :=
  (leaf_names_differ_iff.1 _ _ [0xD800] [0x61] (by decide) (by decide)).mpr (by decide)

/-- Two names of one lone surrogate each are taken for one. -/
theorem lone_surrogates_conflated :
    ¬ ∀ (p q : U16CStr) (parents : List (List UInt16)) (us vs : List UInt16),
      wideComponents p = parents ++ [us] → wideComponents q = parents ++ [vs] → us ≠ vs →
        (splitParentAndName p).2 ≠ (splitParentAndName q).2 := by
  intro hall
  exact hall ⟨[0x5C, 0xD800], by simp⟩ ⟨[0x5C, 0xD801], by simp⟩ [] [0xD800] [0xD801] (by decide)
    (by decide) (by decide) (by decide)

end Confuse
