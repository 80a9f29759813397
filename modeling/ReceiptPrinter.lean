import ReceiptPrinter.Main
import ReceiptPrinter.Proofs.Files.Delivery
import ReceiptPrinter.Proofs.Image.Guarded.Safety
import ReceiptPrinter.Proofs.Image.Pixels
import ReceiptPrinter.Proofs.Markup.Comments
import ReceiptPrinter.Proofs.Markup.Violations
import ReceiptPrinter.Proofs.Number.Integers
import ReceiptPrinter.Proofs.Number.WellFormed
import ReceiptPrinter.Proofs.Preview.Lines
import ReceiptPrinter.Proofs.Preview.Safety
import ReceiptPrinter.Proofs.Preview.Scale
import ReceiptPrinter.Proofs.Preview.Styles
import ReceiptPrinter.Proofs.Receipt.Concatenation
import ReceiptPrinter.Proofs.Receipt.Emission
import ReceiptPrinter.Proofs.Receipt.Enclosure
import ReceiptPrinter.Proofs.Receipt.Expansion
import ReceiptPrinter.Proofs.Receipt.Refusals
import ReceiptPrinter.Proofs.Receipt.Restoration
import ReceiptPrinter.Proofs.Template.Flattening
import ReceiptPrinter.Proofs.Template.Pieces
import ReceiptPrinter.Proofs.Template.Scopes
import ReceiptPrinter.Proofs.Template.Spelling
import ReceiptPrinter.Proofs.Number.Lossless
