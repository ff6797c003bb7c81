import SwiftApp.UploadFailures
import SwiftApp.BatchOverlap
import SwiftApp.BatchOffMain
import SwiftApp.AliyunUploadVideoTool
import SwiftApp.VideoAnswers
import SwiftApp.VideoHUD
import SwiftApp.LottieHUD
import SwiftApp.LottieLock
import SwiftApp.LottieCommands
import SwiftApp.FDTemplateLayoutCell
import SwiftApp.HandyJSONViewController
import SwiftApp.NewsFeed
import SwiftApp.NewsAnswers
import SwiftApp.TopViewController
import SwiftApp.CurrentVc
import SwiftApp.DBmanager
import SwiftApp.HUDExpand
import SwiftApp.HUDExpandRuns
import SwiftApp.Numerals
import SwiftApp.SwiftText
import SwiftApp.UIColor
import SwiftApp.HexColor
import SwiftApp.HexColorAnswers
import SwiftApp.CurrentLeaf
import SwiftApp.UIButton
import SwiftApp.TZImagePickerCollectionViewController
import SwiftApp.CollectionViewCells
import SwiftApp.TZImagePickerScrollViewController
import SwiftApp.JSONText
import SwiftApp.JSONString
import SwiftApp.Occurrence
import SwiftApp.AttributedText
import SwiftApp.AttributedTextStyle
import SwiftApp.EnlargedTouchArea
import SwiftApp.ButtonSpacing
import SwiftApp.IconPosition
import SwiftApp.FDIndexPathHeightCacheInvalidation
import SwiftApp.TableViewUpdates
import SwiftApp.TableHeights
import SwiftApp.FDKeyedHeightCache
import SwiftApp.MBProgressHUDTimers
import SwiftApp.TimedScreen
import SwiftApp.MBProgressHUDIndicators
import SwiftApp.MessageHUD
import SwiftApp.LottieWork
import SwiftApp.WCDBViewController
import SwiftApp.LottieViewController
import SwiftApp.FLAnimatedImage
import SwiftApp.FLAnimatedImageView
import SwiftApp.Timetable
import SwiftApp.FLAnimatedImagePlayhead
