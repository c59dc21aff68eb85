import Memhook.View.Filters

/-!
# Sorting and filtering

`WriteImpl` walks the address, the timestamp or the size index and prints what the
options accept.  The three indexes hold the same records, so the order should be all that
depends on the flag.  It is, as long as each option that measures from the start measures
each record from the same time in the three walks (`StartsAgree`): these options take the
first record they see for the start, and only in the timestamp index is that the oldest.
-/

namespace Memhook

open MappedViewOption

/-! ## The flags -/

namespace OptionFlag

/-- The flags that choose an index. -/
def IsSort (flag : OptionFlag) : Prop := flag.mask &&& sortmask ≠ 0

instance (flag : OptionFlag) : Decidable flag.IsSort := inferInstanceAs (Decidable (_ ≠ _))

end OptionFlag

private theorem or_and_distrib (a b c : UInt32) : (a ||| b) &&& c = a &&& c ||| b &&& c := by
  apply UInt32.toBitVec_inj.mp
  ext i
  simp [Bool.and_or_distrib_right]

/-- Setting a sort flag clears the others and nothing else. -/
theorem getOptionFlag_setOptionFlag (view : MappedViewBase) {flag : OptionFlag}
    (hflag : flag.IsSort) (other : OptionFlag) :
    (view.setOptionFlag flag true).getOptionFlag other ↔
      other = flag ∨ ¬ other.IsSort ∧ view.getOptionFlag other := by
  have hflags : (view.setOptionFlag flag true).flags =
      view.flags &&& ~~~ sortmask ||| flag.mask := by
    unfold OptionFlag.IsSort at hflag
    simp [MappedViewBase.setOptionFlag, hflag]
  have hkept : ~~~ sortmask &&& other.mask =
      if other.mask &&& sortmask ≠ 0 then 0 else other.mask := by
    cases other <;> rfl
  have hmask : flag.mask &&& other.mask = if other = flag then flag.mask else 0 := by
    cases flag <;> cases other <;> rfl
  have hne : flag.mask ≠ 0 := by cases flag <;> decide
  unfold MappedViewBase.getOptionFlag OptionFlag.IsSort
  rw [hflags, or_and_distrib, UInt32.and_assoc, hkept, hmask]
  by_cases heq : other = flag
  · simp [heq, hne]
  · by_cases hsort : other.mask &&& sortmask = 0 <;> simp [heq, hsort]

namespace BasicMappedView

/-- The view with another sort order. -/
def sortedBy (flag : OptionFlag) (view : BasicMappedView) : BasicMappedView :=
  { view with base := view.base.setOptionFlag flag true }

/-- The view with one more option. -/
def setOption (option : MappedViewOption) (view : BasicMappedView) : BasicMappedView :=
  { view with base := view.base.setOption option }

/-- The index behind a sort flag. -/
def indexBy (flag : OptionFlag) (view : BasicMappedView) : List BasicTraceInfo :=
  match flag with
  | .kSortByAddress => view.indexes.byAddress
  | .kSortBySize => view.indexes.bySize
  | _ => view.container.indexedContainer.items

theorem index_sortedBy {flag : OptionFlag} (hflag : flag.IsSort) (view : BasicMappedView) :
    BasicSimpleMappedView.index (view.sortedBy flag) = view.indexBy flag := by
  have haddress : OptionFlag.kSortByAddress.IsSort := by decide
  have hsize : OptionFlag.kSortBySize.IsSort := by decide
  unfold BasicSimpleMappedView.index sortedBy
  simp only [getOptionFlag_setOptionFlag view.base hflag, haddress, hsize, not_true, false_and,
    or_false]
  cases flag <;> rfl

theorem indexBy_perm (flag : OptionFlag) (view : BasicMappedView) :
    (view.indexBy flag).Perm view.container.indexedContainer.items := by
  cases flag with
  | kSortByAddress => exact view.indexes.byAddress_perm
  | kSortBySize => exact view.indexes.bySize_perm
  | _ => exact List.Perm.refl _

theorem nodup_indexBy (flag : OptionFlag) (view : BasicMappedView) :
    (view.indexBy flag).Nodup :=
  (view.indexBy_perm flag).nodup_iff.mpr view.container.indexedContainer.nodup

end BasicMappedView

/-! ## What is printed -/

/-- Without an interruption the printer writes what the options accept. -/
theorem forEachDo_eq (container : BasicMappedStorage) (n : ℕ) (index : List BasicTraceInfo)
    (view : MappedViewBase) :
    BasicSimpleMappedView.forEachDo container (fun _ => false) n index view =
      (accepted view.options index).map
        (SimpleTraceInfoPrinter.print container (view.getOptionFlag .kShowCallStack)) := by
  induction index generalizing n view with
  | nil => rfl
  | cons tinfo rest ih =>
      have hflag : (view.checkTraceInfoOptions tinfo.toTraceInfoBase).2.getOptionFlag
          .kShowCallStack = view.getOptionFlag .kShowCallStack := rfl
      unfold BasicSimpleMappedView.forEachDo SimpleTraceInfoPrinter.call
      simp only [Bool.false_eq_true, if_false, if_true, ih, hflag]
      unfold accepted MappedViewBase.checkTraceInfoOptions
      rw [Sieve.sift]
      split <;> simp [*]

namespace BasicMappedView

/-- What the view prints in an order, with no interruption. -/
def shown (flag : OptionFlag) (view : BasicMappedView) : List Printed :=
  BasicSimpleMappedView.writeImpl (fun _ => false) (view.sortedBy flag)

theorem shown_eq {flag : OptionFlag} (hflag : flag.IsSort) (view : BasicMappedView) :
    view.shown flag = (accepted view.base.options (view.indexBy flag)).map
      (SimpleTraceInfoPrinter.print view.container (view.base.getOptionFlag .kShowCallStack)) := by
  have hshow : (view.sortedBy flag).base.getOptionFlag .kShowCallStack =
      view.base.getOptionFlag .kShowCallStack := by
    have h := getOptionFlag_setOptionFlag view.base hflag .kShowCallStack
    refine Bool.eq_iff_iff.mpr (h.trans ?_)
    have hne : OptionFlag.kShowCallStack ≠ flag := by
      rintro rfl
      exact absurd hflag (by decide)
    simp [hne, show ¬ OptionFlag.kShowCallStack.IsSort by decide]
  unfold shown BasicSimpleMappedView.writeImpl
  rw [forEachDo_eq, index_sortedBy hflag, hshow]
  rfl

end BasicMappedView

/-! ## Two orders of the same records -/

/-- Each record that comes to an option that measures from the start is measured alike in
both orders. -/
def SameStarts (options : List MappedViewOption) (index index' : List BasicTraceInfo) : Prop :=
  AtStarts (fun before =>
    (measured (accepted before index)).Perm (measured (accepted before index'))) options

theorem SameStarts.tail {option : MappedViewOption} {rest : List MappedViewOption}
    {index index' : List BasicTraceInfo} (h : SameStarts (option :: rest) index index') :
    SameStarts rest (accepted [option] index) (accepted [option] index') := by
  unfold SameStarts
  simp only [← accepted_cons]
  exact AtStarts.tail h

/-- One option on two orders of the same records. -/
theorem perm_accepted_singleton {option : MappedViewOption} (hfresh : option.Fresh)
    {index index' : List BasicTraceInfo} (hperm : index.Perm index')
    (hstarts : option.FromStart → (measured index).Perm (measured index')) :
    (accepted [option] index).Perm (accepted [option] index') := by
  by_cases hfrom : option.FromStart
  · rw [accepted_singleton hfresh, accepted_singleton hfresh]
    exact ((hstarts hfrom).filter _).map _
  · -- the option looks at nothing but the record
    have hfilter : ∀ index, accepted [option] index =
        index.filter fun tinfo => option.accepts tinfo 0 := by
      intro index
      rw [accepted_singleton hfresh]
      simp only [accepts_of_not_fromStart hfrom _ _ 0]
      conv_rhs => rw [← Sieve.map_fst_mark (0 : TimePoint) (fun tinfo => tinfo.timestamp) 0 index]
      rw [List.filter_map]
      rfl
    rw [hfilter, hfilter]
    exact hperm.filter _

theorem perm_accepted {options : List MappedViewOption}
    (hfresh : ∀ option ∈ options, option.Fresh) {index index' : List BasicTraceInfo}
    (hperm : index.Perm index') (hstarts : SameStarts options index index') :
    (accepted options index).Perm (accepted options index') := by
  induction options generalizing index index' with
  | nil => simpa using hperm
  | cons option rest ih =>
      obtain ⟨hoption, hrest⟩ := List.forall_mem_cons.mp hfresh
      rw [accepted_cons, accepted_cons option rest index']
      refine ih hrest (perm_accepted_singleton hoption hperm ?_) hstarts.tail
      simpa using hstarts.head

/-- Options of every duration show that two orders start differently. -/
theorem perm_measured {index index' : List BasicTraceInfo} (hnodup : index.Nodup)
    (hperm : index.Perm index')
    (h : ∀ duration tinfo, tinfo ∈ accepted [maxTimeFromStart 0 duration] index ↔
      tinfo ∈ accepted [maxTimeFromStart 0 duration] index') :
    (measured index).Perm (measured index') := by
  have hnodup' : index'.Nodup := hperm.nodup_iff.mp hnodup
  have hsub : ∀ {index index' : List BasicTraceInfo}, index.Nodup → index'.Nodup →
      index ⊆ index' →
      (∀ duration tinfo, tinfo ∈ accepted [maxTimeFromStart 0 duration] index ↔
        tinfo ∈ accepted [maxTimeFromStart 0 duration] index') →
      ∀ p ∈ measured index, p ∈ measured index' := by
    rintro index index' hnodup hnodup' hsub h ⟨tinfo, start⟩ hp
    obtain ⟨start', hp'⟩ := exists_measured (hsub (mem_of_mem_measured hp))
    rwa [start_eq_of_mem_accepted hnodup hnodup' hp hp' fun duration => h duration tinfo]
  refine (List.perm_ext_iff_of_nodup (Sieve.nodup_mark 0 hnodup)
    (Sieve.nodup_mark 0 hnodup')).mpr fun p => ⟨?_, ?_⟩
  · exact hsub hnodup hnodup' hperm.subset h p
  · exact hsub hnodup' hnodup hperm.symm.subset (fun duration tinfo => (h duration tinfo).symm) p

/-! ## The three orders -/

namespace BasicMappedView

/-- In the three orders every record is measured from the same time. -/
def StartsAgree (view : BasicMappedView) : Prop :=
  ∀ flag flag', flag.IsSort → flag'.IsSort →
    SameStarts view.base.options (view.indexBy flag) (view.indexBy flag')

theorem indexBy_perm_indexBy (view : BasicMappedView) (flag flag' : OptionFlag) :
    (view.indexBy flag).Perm (view.indexBy flag') :=
  (view.indexBy_perm flag).trans (view.indexBy_perm flag').symm

/-- What is printed tells which record it was printed for. -/
theorem mem_shown_iff {flag : OptionFlag} (hflag : flag.IsSort) (view : BasicMappedView)
    {tinfo : BasicTraceInfo} (hmem : tinfo ∈ view.container.indexedContainer.items) :
    SimpleTraceInfoPrinter.print view.container (view.base.getOptionFlag .kShowCallStack) tinfo ∈
        view.shown flag ↔
      tinfo ∈ accepted view.base.options (view.indexBy flag) := by
  rw [shown_eq hflag]
  constructor
  · intro h
    obtain ⟨other, hother, hprint⟩ := List.mem_map.mp h
    have hinfo : other.toTraceInfoBase = tinfo.toTraceInfoBase := congrArg Printed.info hprint
    have hin : other ∈ view.container.indexedContainer.items :=
      (view.indexBy_perm flag).subset ((accepted_sublist _ _).subset hother)
    have hkey : other.key = tinfo.key := congrArg TraceInfoBase.address hinfo
    rwa [← view.container.indexedContainer.eq_of_key_eq hin hmem hkey]
  · exact fun h => List.mem_map_of_mem h

/-- **Sorting does not change what is shown**, only its order, if every option that
measures from the start measures each record from the same time in the three orders.  And
an option that does not, behind options that do, shows it for some duration. -/
theorem shown_perm_iff_startsAgree (view : BasicMappedView)
    (hfresh : ∀ option ∈ view.base.options, option.Fresh) (hstarts : view.StartsAgree) :
    (∀ flag flag', flag.IsSort → flag'.IsSort → (view.shown flag).Perm (view.shown flag')) ∧
      ((∀ duration flag flag', flag.IsSort → flag'.IsSort → ∀ printed,
          printed ∈ (view.setOption (.maxTimeFromStart 0 duration)).shown flag ↔
            printed ∈ (view.setOption (.maxTimeFromStart 0 duration)).shown flag') ↔
        ∀ duration, (view.setOption (.maxTimeFromStart 0 duration)).StartsAgree) := by
  have hperm : ∀ view : BasicMappedView, (∀ option ∈ view.base.options, option.Fresh) →
      view.StartsAgree → ∀ flag flag', flag.IsSort → flag'.IsSort →
        (view.shown flag).Perm (view.shown flag') := by
    intro view hfresh hstarts flag flag' hflag hflag'
    rw [shown_eq hflag, shown_eq hflag']
    exact (perm_accepted hfresh (view.indexBy_perm_indexBy flag flag')
      (hstarts flag flag' hflag hflag')).map _
  refine ⟨hperm view hfresh hstarts, ?_, ?_⟩
  · intro hshown duration flag flag' hflag hflag'
    refine AtStarts.concat (hstarts flag flag' hflag hflag') fun _ => ?_
    refine perm_measured ((view.nodup_indexBy flag).sublist (accepted_sublist _ _))
      (perm_accepted hfresh (view.indexBy_perm_indexBy flag flag')
        (hstarts flag flag' hflag hflag')) ?_
    intro duration tinfo
    rw [← accepted_append, ← accepted_append]
    by_cases hmem : tinfo ∈ view.container.indexedContainer.items
    · -- a record is printed exactly if it is accepted
      have h := hshown duration flag flag' hflag hflag'
        (SimpleTraceInfoPrinter.print view.container (view.base.getOptionFlag .kShowCallStack)
          tinfo)
      have hiff := fun {flag : OptionFlag} (hflag : flag.IsSort) =>
        mem_shown_iff hflag (view.setOption (.maxTimeFromStart 0 duration)) hmem
      exact (hiff hflag).symm.trans (h.trans (hiff hflag'))
    · have hnot : ∀ flag options, tinfo ∉ accepted options (view.indexBy flag) :=
        fun flag options h =>
          hmem ((view.indexBy_perm flag).subset ((accepted_sublist _ _).subset h))
      exact ⟨fun h => absurd h (hnot _ _), fun h => absurd h (hnot _ _)⟩
  · intro hagree duration flag flag' hflag hflag' printed
    refine (hperm _ ?_ (hagree duration) flag flag' hflag hflag').mem_iff
    intro option hoption
    rcases List.mem_append.mp hoption with hoption | hoption
    · exact hfresh option hoption
    · rw [List.mem_singleton.mp hoption]
      rfl

/-- Two records whose three orders are the same. -/
def grown : BasicMappedStorage := (BasicMappedStorage.empty.add 16 4 [] 10).add 32 8 [] 20

/-- A view of them that keeps what is at most five nanoseconds from the start. -/
def grownView : BasicMappedView :=
  ⟨(MappedViewBase.new.setOption (.minSize 1)).setOption (.maxTimeFromStart 0 5), grown,
    ⟨grown.indexedContainer.items, grown.indexedContainer.items, List.Perm.refl _, by decide,
      List.Perm.refl _, by decide⟩⟩

theorem shown_perm_iff_startsAgree_grown :
    grownView.StartsAgree ∧ grownView.shown .kSortByTime = [⟨⟨16, 4, 10⟩, []⟩] ∧
      (grownView.shown .kSortByAddress).Perm (grownView.shown .kSortByTime) ∧
      (grownView.shown .kSortBySize).Perm (grownView.shown .kSortByTime) := by
  have hindex : ∀ flag, grownView.indexBy flag = grown.indexedContainer.items := by
    intro flag
    cases flag <;> rfl
  have hagree : grownView.StartsAgree := by
    intro flag flag' _ _ before option after _ _
    rw [hindex, hindex]
  have hperm := (shown_perm_iff_startsAgree grownView (by decide) hagree).1
  exact ⟨hagree, by decide, hperm _ _ (by decide) (by decide), hperm _ _ (by decide) (by decide)⟩

/-- The older record has the higher address. -/
def crossed : BasicMappedStorage := (BasicMappedStorage.empty.add 32 4 [] 10).add 16 8 [] 20

def crossedView : BasicMappedView :=
  ⟨MappedViewBase.new.setOption (.maxTimeFromStart 0 5), crossed,
    ⟨crossed.indexedContainer.items.reverse, crossed.indexedContainer.items, by decide, by decide,
      List.Perm.refl _, by decide⟩⟩

/-- In the order of addresses the younger record is the start, and both pass. -/
theorem address_order_shows_more :
    (∀ option ∈ crossedView.base.options, option.Fresh) ∧
      (⟨⟨16, 8, 20⟩, []⟩ : Printed) ∈ crossedView.shown .kSortByAddress ∧
      (⟨⟨16, 8, 20⟩, []⟩ : Printed) ∉ crossedView.shown .kSortByTime ∧
      (⟨⟨16, 8, 20⟩, []⟩ : Printed) ∉ crossedView.shown .kSortBySize := by
  refine ⟨by decide, by decide, by decide, by decide⟩

end BasicMappedView

end Memhook
