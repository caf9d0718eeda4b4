import Slab.Finance.Invoices
import Slab.Txn.Guard

/-!
# Payments against invoices

Payments, interleaved statement by statement. The invoice is locked from the moment its amounts
are read, so its paid amount and the payments that name it move together.

## Main definitions

- `Db.paidFor` — the sum of the payments of an invoice
- `Db.Paid` — every invoice's paid amount is that sum, between 0 and the total
- `PaymentRequest.NoOverflow` — the paid amount and the payment together are a 64-bit integer
- `invoiceGuard` — what the row of an invoice guards

## Main results

- `payment_safe` — a payment among others
- `paid_of_run` — the paid amounts along every run without an overflow
- `paid_run_overflows` — a run with one
-/

namespace Slab

open Txn PaymentCreate

namespace Db

/-- The sum of the payments that name the invoice by its type and id. -/
def paidFor (db : Db) (t : InvoiceType) (id : ID) : ℤ :=
  db.payments.tally (fun p => p.invoiceType = t.asStr && p.invoiceId = id) Payment.amount

end Db

/-- The paid amount is the sum `n` of the payments, and between 0 and the total. -/
def InvoiceInfo.Agrees (i : InvoiceInfo) (n : ℤ) : Prop :=
  i.paidAmount = n ∧ 0 ≤ i.paidAmount ∧ i.paidAmount ≤ i.totalAmount

/-- Every invoice's paid amount agrees with its payments. -/
def Db.Paid (db : Db) : Prop :=
  ∀ t id i, db.invoice? t id = some i → i.Agrees (db.paidFor t id)

structure PaymentRequest where
  ctx : Operator
  request : CreatePaymentRequest

namespace PaymentRequest

/-- The transaction of a payment. -/
def run (r : PaymentRequest) : Handler CreatePaymentResponse := execute r.ctx r.request

/-- When the payment replaces the row of its invoice, the present paid amount and its own amount
add up to a 64-bit integer. -/
def NoOverflow (r : PaymentRequest) (_own olds : List Key) (v : Db) : Prop :=
  ∀ t : InvoiceType, .row t.table r.request.invoiceId ∈ olds →
    ∀ i, v.invoice? t r.request.invoiceId = some i → i.paidAmount + r.request.amount < 2 ^ 63

/-- The test that decides `NoOverflow`. -/
def noOverflow (r : PaymentRequest) (_own olds : List Key) (v : Db) : Bool :=
  [InvoiceType.sales, .purchase].all fun t =>
    !olds.contains (.row t.table r.request.invoiceId) ||
      match v.invoice? t r.request.invoiceId with
      | some i => decide (i.paidAmount + r.request.amount < 2 ^ 63)
      | none => true

theorem noOverflow_sound (r : PaymentRequest) (own olds : List Key) (v : Db)
    (h : r.noOverflow own olds v = true) : r.NoOverflow own olds v := by
  intro t ht i hi
  have hall := List.all_eq_true.mp h t (by cases t <;> simp)
  simpa [ht, hi] using hall

end PaymentRequest

/-- What one row guards: an invoice with the sum of its payments, or the presence of a payment. -/
inductive PayPart where
  | invoice (info : Option InvoiceInfo) (paid : ℤ)
  | payment (present : Bool)
  | other

def payPart (db : Db) : Key → PayPart
  | .row .salesInvoices id => .invoice (db.invoice? .sales id) (db.paidFor .sales id)
  | .row .purchaseInvoices id => .invoice (db.invoice? .purchase id) (db.paidFor .purchase id)
  | .row .payments id => .payment (db.payments.has id)
  | _ => .other

theorem payPart_invoice (db : Db) (t : InvoiceType) (id : ID) :
    payPart db (.row t.table id) = .invoice (db.invoice? t id) (db.paidFor t id) := by
  cases t <;> rfl

/-- The part is as it has to be when nobody owns it. -/
def PayPart.Whole : PayPart → Prop
  | .invoice (some i) n => i.Agrees n
  | _ => True

/-- An invoice's row guards its amounts and its payments. -/
def invoiceGuard : Guard Db Key PayPart PaymentRequest Answer where
  proj k db := payPart db k
  about _ _ := false
  inv _ part _ := part.Whole
  moves _ _ _ := True
  moves_refl _ _ := trivial
  moves_trans _ _ _ _ _ _ := trivial
  pre _ _ _ := True
  assumes := PaymentRequest.NoOverflow

/-! ## The guarded tables -/

/-- The tables that the guard looks at. -/
def payTables (db : Db) : (Table fun r : SalesInvoiceRow => r.id) ×
    (Table fun r : PurchaseInvoiceRow => r.id) × Table Payment.id :=
  (db.salesInvoices, db.purchaseInvoices, db.payments)

theorem payPart_congr {x y : Db} (h : payTables x = payTables y) (k : Key) :
    payPart x k = payPart y k := by
  obtain ⟨h₁, h⟩ := Prod.mk.inj h
  obtain ⟨h₂, h₃⟩ := Prod.mk.inj h
  unfold payPart Db.paidFor Db.invoice?
  rw [h₁, h₂, h₃]

/-- A program that leaves the guarded tables alone is neutral. -/
theorem invoiceGuard_neutral {α : Type} {p : Handler α} (hp : p.Preserves payTables) :
    invoiceGuard.Neutral p :=
  .of_preserves hp (fun k _ _ h => payPart_congr h k) (fun _ _ _ => rfl) fun _ _ _ => trivial

/-- What a payment knows of the rows it owns: the part of its invoice, and that the others are
whole. -/
structure Knows (key : Key) (part : PayPart) (own : List Key) (v : Db) : Prop where
  mem : key ∈ own
  part : payPart v key = part
  others : ∀ k ∈ own, k ≠ key → (payPart v k).Whole

namespace Knows

variable {key : Key} {part : PayPart} {own : List Key} {v v' : Db}
  {tr tr' : List (Event PaymentRequest Answer)}

/-- The others do not touch what is owned, and keep the rest whole. -/
theorem whole (h : Knows key part own v) (hr : invoiceGuard.Rely own v tr v' tr') {k : Key}
    (hk : k ≠ key) : (payPart v' k).Whole := by
  by_cases hin : k ∈ own
  · have hp : payPart v' k = payPart v k := (hr.kept k hin).1
    rw [hp]
    exact h.others k hin hk
  · exact hr.rest k hin

theorem rely (h : Knows key part own v) (hr : invoiceGuard.Rely own v tr v' tr') :
    Knows key part own v' :=
  ⟨h.mem, (hr.kept key h.mem).1.trans h.part, fun _ _ hk => h.whole hr hk⟩

/-- Neutral programs keep what is known. -/
theorem neutral {α : Type} {p : Handler α} {r : PaymentRequest} (h : Knows key part own v)
    (hp : invoiceGuard.Neutral p) :
    invoiceGuard.Safe r (fun _ own' v' _ => own ⊆ own' ∧ Knows key part own' v') p own v tr :=
  hp.safe fun _ _ _ _ hsub hkept hrest =>
    ⟨hsub, hsub h.mem, (hkept key h.mem).1.trans h.part, fun _ _ hk => h.whole ⟨hkept, hrest⟩ hk⟩

/-- With the invoice whole too, the payment may commit. -/
theorem done (h : Knows key part own v) (hpart : part.Whole) (r : PaymentRequest) :
    invoiceGuard.Done r own v tr := by
  refine ⟨fun k hk => ?_, Guard.Hears.of_none fun _ => rfl⟩
  show (payPart v k).Whole
  by_cases hk₁ : k = key
  · rw [hk₁, h.part]
    exact hpart
  · exact h.others k hk hk₁

end Knows

/-! ## The two writes -/

section Writes

variable {t : InvoiceType} {row : Payment} {db : Db}

/-- The row of a payment is stored. -/
def storePayment (row : Payment) (db : Db) : Db := { db with payments := db.payments.insert row }

theorem invoice?_storePayment (t : InvoiceType) (id : ID) :
    (storePayment row db).invoice? t id = db.invoice? t id := by
  cases t <;> rfl

theorem paidFor_storePayment (hfresh : db.payments.has row.id = false) (id : ID) :
    (storePayment row db).paidFor t id =
      db.paidFor t id + if row.invoiceType = t.asStr ∧ row.invoiceId = id then row.amount else 0 := by
  simp only [Db.paidFor, storePayment, Table.tally_insert_eq, hfresh, Bool.and_eq_true,
    decide_eq_true_eq, Bool.false_eq_true, if_false]

theorem invoice?_setPaid_self (id : ID) (paid : ℤ) :
    (db.setPaid t id paid).invoice? t id =
      (db.invoice? t id).map fun i => ⟨i.totalAmount, paid⟩ := by
  cases t <;>
  · simp only [Db.setPaid, Db.invoice?, Table.get?_modify_self, Option.map_map]
    rfl

theorem invoice?_setPaid_of_ne {t' : InvoiceType} {id id' : ID} (h : t'.table ≠ t.table ∨ id' ≠ id)
    (paid : ℤ) : (db.setPaid t id paid).invoice? t' id' = db.invoice? t' id' := by
  cases t <;> cases t'
  · have hne : id' ≠ id := h.resolve_left fun hc => hc rfl
    simp only [Db.setPaid, Db.invoice?, Table.get?_modify_of_ne hne]
  · rfl
  · rfl
  · have hne : id' ≠ id := h.resolve_left fun hc => hc rfl
    simp only [Db.setPaid, Db.invoice?, Table.get?_modify_of_ne hne]

theorem payments_setPaid (id : ID) (paid : ℤ) : (db.setPaid t id paid).payments = db.payments := by
  cases t <;> rfl

theorem paidFor_setPaid (t' : InvoiceType) (id id' : ID) (paid : ℤ) :
    (db.setPaid t id paid).paidFor t' id' = db.paidFor t' id' := by
  rw [Db.paidFor, payments_setPaid, Db.paidFor]

theorem payPart_setPaid_self (id : ID) (paid : ℤ) :
    payPart (db.setPaid t id paid) (.row t.table id) =
      .invoice ((db.invoice? t id).map fun i => ⟨i.totalAmount, paid⟩) (db.paidFor t id) := by
  rw [payPart_invoice, invoice?_setPaid_self, paidFor_setPaid]

/-- The update changes the part of its invoice only. -/
theorem payPart_setPaid_of_ne (id : ID) (paid : ℤ) {k : Key} (hk : k ≠ .row t.table id) :
    payPart (db.setPaid t id paid) k = payPart db k := by
  rcases k with _ | ⟨tn, j⟩
  · rfl
  · have hne : ∀ t' : InvoiceType, tn = t'.table → t'.table ≠ t.table ∨ j ≠ id := by
      intro t' ht'
      by_cases hj : j = id
      · refine .inl fun hc => hk ?_
        rw [ht', hc, hj]
      · exact .inr hj
    cases tn with
    | salesInvoices =>
      show payPart _ (.row InvoiceType.sales.table j) = payPart _ (.row InvoiceType.sales.table j)
      rw [payPart_invoice, payPart_invoice, invoice?_setPaid_of_ne (hne .sales rfl),
        paidFor_setPaid]
    | purchaseInvoices =>
      show payPart _ (.row InvoiceType.purchase.table j) =
        payPart _ (.row InvoiceType.purchase.table j)
      rw [payPart_invoice, payPart_invoice, invoice?_setPaid_of_ne (hne .purchase rfl),
        paidFor_setPaid]
    | payments =>
      show PayPart.payment _ = .payment _
      rw [payments_setPaid]
    | _ => rfl

end Writes

/-- The stored payment changes the part of its invoice and its own. -/
theorem payPart_storePayment_of_ne {t : InvoiceType} {row : Payment}
    (htype : row.invoiceType = t.asStr) (x : Db) {k : Key} (hk : k ≠ .row t.table row.invoiceId)
    (hk' : k ≠ .row .payments row.id) : payPart (storePayment row x) k = payPart x k := by
  rcases k with _ | ⟨tn, j⟩
  · rfl
  · have hother : ∀ t' : InvoiceType, tn = t'.table →
        ¬ (row.invoiceType = t'.asStr ∧ row.invoiceId = j) := by
      rintro t' ht' ⟨hstr, rfl⟩
      rw [htype] at hstr
      refine hk ?_
      rw [ht']
      cases t <;> cases t' <;> simp [InvoiceType.asStr] at hstr ⊢
    have hsum : ∀ t' : InvoiceType, tn = t'.table →
        (storePayment row x).paidFor t' j = x.paidFor t' j := by
      intro t' ht'
      have hno := hother t' ht'
      simp only [Db.paidFor, storePayment, Table.tally_insert_eq, Bool.and_eq_true,
        decide_eq_true_eq, hno, if_false, ite_self, add_zero]
    cases tn with
    | salesInvoices =>
      show PayPart.invoice _ _ = .invoice _ _
      rw [hsum .sales rfl, invoice?_storePayment]
    | purchaseInvoices =>
      show PayPart.invoice _ _ = .invoice _ _
      rw [hsum .purchase rfl, invoice?_storePayment]
    | payments =>
      have hj : row.id ≠ j := fun hc => hk' (by rw [hc])
      show PayPart.payment _ = .payment _
      simp [storePayment, Table.has_insert, hj]
    | _ => rfl

section Frames

variable {t : InvoiceType} {row : Payment} {own : List Key}

theorem storePayment_frame (htype : row.invoiceType = t.asStr)
    (hinvoice : .row t.table row.invoiceId ∈ own) (hpayment : .row .payments row.id ∈ own) :
    invoiceGuard.Frame own (storePayment row) := by
  refine ⟨fun k hk x => ?_, fun x y hxy k hk => ?_⟩
  · exact payPart_storePayment_of_ne htype x (fun he => hk (he ▸ hinvoice))
      fun he => hk (he ▸ hpayment)
  · have hxi : payPart x (.row t.table row.invoiceId) = payPart y (.row t.table row.invoiceId) :=
      hxy _ hinvoice
    have hxp : payPart x (.row .payments row.id) = payPart y (.row .payments row.id) :=
      hxy _ hpayment
    show payPart (storePayment row x) k = payPart (storePayment row y) k
    by_cases hk₁ : k = .row t.table row.invoiceId
    · subst hk₁
      have hhas : x.payments.has row.id = y.payments.has row.id := PayPart.payment.inj hxp
      rw [payPart_invoice, payPart_invoice, PayPart.invoice.injEq] at hxi
      obtain ⟨hinfo, hsum⟩ := hxi
      unfold Db.paidFor at hsum
      rw [payPart_invoice, payPart_invoice, invoice?_storePayment, invoice?_storePayment, hinfo]
      simp only [Db.paidFor, storePayment, Table.tally_insert_eq, hhas, hsum]
    · by_cases hk₂ : k = .row .payments row.id
      · subst hk₂
        show PayPart.payment _ = .payment _
        simp [storePayment, Table.has_insert]
      · rw [payPart_storePayment_of_ne htype x hk₁ hk₂, payPart_storePayment_of_ne htype y hk₁ hk₂]
        exact hxy k hk

theorem setPaid_frame (id : ID) (paid : ℤ) (hinvoice : .row t.table id ∈ own) :
    invoiceGuard.Frame own (Db.setPaid t id paid) := by
  refine ⟨fun k hk x => ?_, fun x y hxy k hk => ?_⟩
  · exact payPart_setPaid_of_ne id paid fun he => hk (he ▸ hinvoice)
  · have hxi : payPart x (.row t.table id) = payPart y (.row t.table id) := hxy _ hinvoice
    show payPart (Db.setPaid t id paid x) k = payPart (Db.setPaid t id paid y) k
    by_cases hk₁ : k = .row t.table id
    · subst hk₁
      rw [payPart_invoice, payPart_invoice, PayPart.invoice.injEq] at hxi
      rw [payPart_setPaid_self, payPart_setPaid_self, hxi.1, hxi.2]
    · rw [payPart_setPaid_of_ne id paid hk₁, payPart_setPaid_of_ne id paid hk₁]
      exact hxy k hk

end Frames

/-! ## A payment -/

theorem nextNumber_neutral (seqName docPrefix : String) :
    invoiceGuard.Neutral (DocNumberer.nextNumber seqName docPrefix) :=
  invoiceGuard_neutral (DocNumberer.nextNumber_preserves _ _ _)

theorem paymentDateOrToday_neutral (date : Option Date) :
    invoiceGuard.Neutral (paymentDateOrToday date) := by
  refine invoiceGuard_neutral ?_
  cases date with
  | some d => exact Prog.preserves_ret _
  | none => exact Prog.preserves_ask _

theorem recordPayment_neutral (ctx : Operator) (id : ID) :
    invoiceGuard.Neutral (recordPayment ctx id) := by
  refine invoiceGuard_neutral ((Prog.preserves_select _).bind fun row => ?_)
  refine (Prog.preserves_orFail _ _).bind fun payment => ?_
  exact (AuditService.record_preserves _ _ _ _ _ _).factor (by intro _; rfl)

/-- The payment is stored: the sum has grown, the paid amount not yet. -/
theorem Knows.store {t : InvoiceType} {i : InvoiceInfo} {n : ℤ} {own : List Key} {v : Db}
    (row : Payment) (h : Knows (.row t.table row.invoiceId) (.invoice (some i) n) own v)
    (htype : row.invoiceType = t.asStr) (hfresh : v.payments.has row.id = false)
    (hrest : ∀ k, k ≠ .row t.table row.invoiceId → (payPart v k).Whole) :
    Knows (.row t.table row.invoiceId) (.invoice (some i) (n + row.amount))
      (own ++ [.row .payments row.id]) (storePayment row v) := by
  refine ⟨List.mem_append_left _ h.mem, ?_, fun k _ hk => ?_⟩
  · have hpart := h.part
    rw [payPart_invoice, PayPart.invoice.injEq] at hpart
    rw [payPart_invoice, invoice?_storePayment, paidFor_storePayment hfresh, hpart.1, hpart.2,
      if_pos ⟨htype, rfl⟩]
  · by_cases hk₂ : k = .row .payments row.id
    · rw [hk₂]
      exact trivial
    · rw [payPart_storePayment_of_ne htype v hk hk₂]
      exact hrest k hk

/-- The paid amount is set. -/
theorem Knows.setPaid {t : InvoiceType} {id : ID} {i : InvoiceInfo} {n : ℤ} {own : List Key}
    {v : Db} (paid : ℤ) (h : Knows (.row t.table id) (.invoice (some i) n) own v) (keys : List Key)
    (hrest : ∀ k, k ≠ .row t.table id → (payPart v k).Whole) :
    Knows (.row t.table id) (.invoice (some ⟨i.totalAmount, paid⟩) n) (own ++ keys)
      (v.setPaid t id paid) := by
  refine ⟨List.mem_append_left _ h.mem, ?_, fun k _ hk => ?_⟩
  · have hpart := h.part
    rw [payPart_invoice, PayPart.invoice.injEq] at hpart
    rw [payPart_setPaid_self, hpart.1, hpart.2, Option.map_some]
  · rw [payPart_setPaid_of_ne id paid hk]
    exact hrest k hk

/-- A sum that does not overflow is checked for what it is. -/
theorem agrees_of_fits {i : InvoiceInfo} {n amount : ℤ} (h : i.Agrees n) (hpos : 0 < amount)
    (hfits : i.paidAmount + amount < 2 ^ 63)
    (hle : ¬ Arith.i64.add i.paidAmount amount > i.totalAmount) :
    InvoiceInfo.Agrees ⟨i.totalAmount, Arith.i64.add i.paidAmount amount⟩ (n + amount) := by
  obtain ⟨hsum, hnonneg, -⟩ := h
  have hadd : Arith.i64.add i.paidAmount amount = i.paidAmount + amount :=
    Arith.add_eq_of_fits (Arith.fits_i64_iff.mpr ⟨by omega, hfits⟩)
  rw [hadd] at hle ⊢
  exact ⟨by rw [hsum], show 0 ≤ i.paidAmount + amount by omega,
    show i.paidAmount + amount ≤ i.totalAmount by omega⟩

/-- A payment that adds up keeps the invoice between 0 and its total, whatever the others do. -/
theorem payment_safe (r : PaymentRequest) (v : Db) (tr : List (Event PaymentRequest Answer)) :
    invoiceGuard.Safe r (fun _ => invoiceGuard.Done r) r.run [] v tr := by
  refine Guard.Safe.ensure_bind fun hpos => Guard.Safe.ofExcept_bind fun t ht => ?_
  have hpos : 0 < r.request.amount := by simpa using hpos
  have htype : r.request.invoiceType = t.asStr := InvoiceType.fromStr_eq_ok.mp ht
  rw [InvoicePort.byId_eq]
  refine Guard.Safe.bind (Guard.Safe.selectForUpdate_bind fun v₁ tr₁ hr₁ => ?_)
  cases hi : v₁.invoice? t r.request.invoiceId with
  | none => exact trivial
  | some i =>
    -- the invoice is locked from here on
    have hpart : payPart v₁ (.row t.table r.request.invoiceId) =
        .invoice (some i) (v₁.paidFor t r.request.invoiceId) := by
      rw [payPart_invoice, hi]
    have hagree : i.Agrees (v₁.paidFor t r.request.invoiceId) := by
      have hwhole : (payPart v₁ (.row t.table r.request.invoiceId)).Whole :=
        hr₁.rest _ List.not_mem_nil
      rwa [hpart] at hwhole
    have h₁ : Knows (.row t.table r.request.invoiceId) _
        ([] ++ lockRow t.table r.request.invoiceId (some i).isSome) v₁ :=
      ⟨List.mem_singleton_self _, hpart, fun k hk hne => absurd (List.mem_singleton.mp hk) hne⟩
    refine Guard.Safe.ret fun v₂ tr₂ hr₂ => Guard.Safe.ensure_bind fun hle => ?_
    have h₂ := h₁.rely hr₂
    refine Guard.Safe.bind ((h₂.neutral (nextNumber_neutral _ _)).mono ?_)
    rintro code own₃ v₃ tr₃ ⟨-, h₃⟩
    refine Guard.Safe.ask_bind fun v₄ tr₄ hr₄ => ⟨trivial, fun id =>
      ⟨Guard.Hears.of_none fun _ => rfl, ?_⟩⟩
    have h₄ := h₃.rely hr₄
    refine Guard.Safe.bind ((h₄.neutral (paymentDateOrToday_neutral _)).mono ?_)
    rintro date own₅ v₅ tr₅ ⟨-, h₅⟩
    refine Guard.Safe.insert_bind fun v₆ tr₆ hr₆ hfresh => ?_
    have h₆ : Knows _ _ (own₅ ++ [.row .payments id])
        (storePayment (payment id code date r.request) v₆) :=
      (h₅.rely hr₆).store (payment id code date r.request) htype
        (unique_eq_none.mp hfresh) fun k hk => h₅.whole hr₆ hk
    refine ⟨⟨storePayment_frame htype h₆.mem (by simp [payment]), fun _ _ => trivial⟩, ?_⟩
    refine Guard.Safe.bind ((h₆.neutral (recordPayment_neutral r.ctx id)).mono ?_)
    rintro - own₇ v₇ tr₇ ⟨-, h₇⟩
    refine Guard.Safe.update_bind fun v₈ tr₈ hr₈ hfits => ?_
    have h₈ := (h₇.rely hr₈).setPaid (Arith.i64.add i.paidAmount r.request.amount)
      (lockRow t.table r.request.invoiceId (v₈.invoice? t r.request.invoiceId).isSome)
      fun k hk => h₇.whole hr₈ hk
    refine ⟨⟨setPaid_frame _ _ h₈.mem, fun _ _ => trivial⟩, ?_⟩
    -- the sum has not wrapped, so the paid amount agrees again
    have hinfo : v₈.invoice? t r.request.invoiceId = some i := by
      have hpart₈ := (h₇.rely hr₈).part
      rw [payPart_invoice] at hpart₈
      exact (PayPart.invoice.inj hpart₈).1
    have hsum : i.paidAmount + r.request.amount < 2 ^ 63 := by
      refine hfits t ?_ i hinfo
      rw [hinfo]
      exact List.mem_singleton_self _
    refine Guard.Safe.ret fun v' tr' hr' => (h₈.rely hr').done ?_ r
    exact agrees_of_fits hagree hpos hsum (by simpa using hle)

/-! ## Runs -/

theorem invoiceGuard_holds_iff {db : Db} {tr : List (Event PaymentRequest Answer)} :
    (∀ k, invoiceGuard.Holds k db tr) ↔ db.Paid := by
  constructor
  · intro h t id i hi
    have hk : (payPart db (.row t.table id)).Whole := h (.row t.table id)
    rw [payPart_invoice, hi] at hk
    exact hk
  · intro h k
    show (payPart db k).Whole
    have hinvoice : ∀ (t : InvoiceType) (id : ID), (payPart db (.row t.table id)).Whole := by
      intro t id
      rw [payPart_invoice]
      cases hi : db.invoice? t id with
      | none => exact trivial
      | some i => exact h t id i hi
    rcases k with _ | ⟨tn, id⟩
    · exact trivial
    · cases tn with
      | salesInvoices => exact hinvoice .sales id
      | purchaseInvoices => exact hinvoice .purchase id
      | _ => exact trivial

/-- Invoices that nothing has been paid for are where a run can start. -/
theorem paid_of_fresh {db : Db} (hpayments : db.payments.rows = [])
    (hfresh : ∀ t id i, db.invoice? t id = some i → i.paidAmount = 0 ∧ 0 ≤ i.totalAmount) :
    db.Paid := by
  intro t id i hi
  obtain ⟨hpaid, htotal⟩ := hfresh t id i hi
  have hsum : db.paidFor t id = 0 := by
    rw [Db.paidFor, Table.tally, hpayments]
    rfl
  exact ⟨by rw [hpaid, hsum], by omega, by omega⟩

/-- In every run whose payments add up to 64-bit integers, each invoice's paid amount is the sum of
its payments, between 0 and the total; a payment that is rejected leaves the database as it was,
and what changes the database is the commit of a payment that went through. -/
theorem paid_of_run {initial : Db} (hinit : initial.Paid)
    {c : Config Db Key Answer AppError CreatePaymentResponse PaymentRequest}
    (hr : Run PaymentRequest.run (Config.Meets PaymentRequest.NoOverflow) (Config.init initial) c) :
    c.db.Paid ∧
    (∀ i ans s e d, c.session? i = some s → s.prog = .fail e →
      c.act PaymentRequest.run (.step i ans) = some d → d.db = c.db) ∧
    ∀ a d, c.act PaymentRequest.run a = some d → d.db ≠ c.db →
      ∃ i ans s response, a = .step i ans ∧ c.session? i = some s ∧ s.prog = .ret response ∧
        d = c.commit i s := by
  refine ⟨?_, ?_, ?_⟩
  · have hsound := Guard.Sound.run (G := invoiceGuard) (fun r v tr _ => payment_safe r v tr)
      (fun _ _ hmeets => hmeets) (Guard.Sound.init (invoiceGuard_holds_iff.mpr hinit)) hr
    exact invoiceGuard_holds_iff.mp hsound.holds
  · intro i ans s e d hs hp hact
    rcases (Step.of_act hact).db_eq with h | ⟨j, ans', s', x, ha, hs', hp', -⟩
    · exact h
    · obtain ⟨rfl, -⟩ := Action.step.inj ha
      obtain rfl : s = s' := Option.some.inj (hs.symm.trans hs')
      rw [hp] at hp'
      cases hp'
  · intro a d hact hne
    rcases (Step.of_act hact).db_eq with h | h
    · exact absurd h hne
    · exact h

/-- One invoice over 10000, nothing paid. -/
def oneInvoice : Db :=
  { Db.empty with
    salesInvoices := Table.empty.insert
      { id := 1, code := "SINV-1", orderId := 2, customerId := 3, invoiceNumber := none
        invoiceDate := some 0, amount := 8000, taxAmount := 2000, totalAmount := 10000, status := 0
        remark := none, paidAmount := 0 } }

theorem oneInvoice_paid : oneInvoice.Paid := by
  refine paid_of_fresh rfl fun t id i hi => ?_
  cases t with
  | sales =>
    obtain ⟨r, hr, rfl⟩ := Option.map_eq_some_iff.mp hi
    have hmem := Table.mem_of_get? hr
    rw [oneInvoice, Table.rows_insert rfl] at hmem
    obtain rfl := List.mem_singleton.mp hmem
    exact ⟨rfl, by decide⟩
  | purchase => cases hi

def payOne (amount : ℤ) : PaymentRequest where
  ctx := ⟨1, none, none⟩
  request := ⟨1, "sales_invoice", 1, amount, none, none, none⟩

/-- Two payments are made at once; the second goes on for `steps` steps when the first is done. -/
def payingInTurns (first second : ℤ) (steps : ℕ) : List (Action PaymentRequest Answer) :=
  [.start (payOne first), .start (payOne second)] ++
    ((List.range 11).map fun n => .step 0 (numbered (100 + n) 0)) ++
    ((List.range steps).map fun n => .step 1 (numbered (200 + n) 0))

/-- The second payment is too much, and is rejected. -/
theorem paid_of_run_oneInvoice :
    ∃ c, Run PaymentRequest.run (Config.Meets PaymentRequest.NoOverflow) (Config.init oneInvoice)
      c ∧ c.db.invoice? .sales 1 = some ⟨10000, 4000⟩ ∧ c.db.Paid := by
  have hplay : ((Config.init oneInvoice).play PaymentRequest.run
      (Config.meets PaymentRequest.noOverflow) (payingInTurns 4000 7000 2)).map
        (fun c => c.db.invoice? .sales 1) = some (some ⟨10000, 4000⟩) := by
    decide +kernel
  obtain ⟨c, hc, hpaid⟩ := Option.map_eq_some_iff.mp hplay
  have hrun := Run.of_play (fun _ _ h => Config.meets_of_test PaymentRequest.noOverflow_sound h)
    .refl hc
  exact ⟨c, hrun, hpaid, (paid_of_run oneInvoice_paid hrun).1⟩

/-- The second payment overflows, and is accepted: the paid amount is negative. -/
theorem paid_run_overflows :
    oneInvoice.Paid ∧ ∃ c, Run PaymentRequest.run (fun _ _ => True) (Config.init oneInvoice) c ∧
      c.db.invoice? .sales 1 = some ⟨10000, -2 ^ 63 + 4999⟩ ∧
      c.db.paidFor .sales 1 = 2 ^ 63 + 4999 ∧ ¬ c.db.Paid := by
  refine ⟨oneInvoice_paid, ?_⟩
  have hplay : ((Config.init oneInvoice).play PaymentRequest.run (fun _ _ => true)
      (payingInTurns 5000 (2 ^ 63 - 1) 11)).map
        (fun c => (c.db.invoice? .sales 1, c.db.paidFor .sales 1)) =
        some (some ⟨10000, -2 ^ 63 + 4999⟩, 2 ^ 63 + 4999) := by
    decide +kernel
  obtain ⟨c, hc, hfacts⟩ := Option.map_eq_some_iff.mp hplay
  obtain ⟨hinfo, hsum⟩ := Prod.mk.inj hfacts
  refine ⟨c, Run.of_play (fun _ _ _ => trivial) .refl hc, hinfo, hsum, fun hpaid => ?_⟩
  have hnonneg := (hpaid .sales 1 _ hinfo).2.1
  exact absurd hnonneg (by decide)

end Slab
