import CallOrigins.Main
import CallOrigins.Proofs.Java.DirectCalls
import CallOrigins.Proofs.Java.Erasure
import CallOrigins.Proofs.Java.FileOrder
import CallOrigins.Proofs.Java.Hierarchy
import CallOrigins.Proofs.Java.InferredTypes
import CallOrigins.Proofs.Java.LineNumbers
import CallOrigins.Proofs.Java.OwnIdentifiers
import CallOrigins.Proofs.Java.Placeholders
import CallOrigins.Proofs.Java.ResolvedNames
import CallOrigins.Proofs.Java.ScopeDiscipline
import CallOrigins.Proofs.OriginWalks
import CallOrigins.Proofs.Report.CsvReading
import CallOrigins.Proofs.Search.Rounds
import CallOrigins.Proofs.Search.Searches
